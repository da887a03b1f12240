import OmkVerified.CodingAgent.Integrity.Proofs.SoundProofs

/-!
# The inspector and the loader

A file that the inspector certifies is loaded as the same header and the same entries, and the
context is built on the same branch, unless the file starts with a byte order mark: the decoder of
the inspector removes it, the loader keeps it, so that the line of the header is no JSON to it.
-/

namespace CodingAgent.Integrity

open Lib

/-! ## The byte order mark -/

/-- The encoding of U+FEFF. -/
def byteOrderMark : List UInt8 := [0xEF, 0xBB, 0xBF]

theorem encode_bom (text : List Char) :
    Utf8.encode ('\uFEFF' :: text) = byteOrderMark ++ Utf8.encode text := by
  have hchar : String.utf8EncodeChar '\uFEFF' = byteOrderMark := by decide
  rw [Utf8.encode_cons, hchar]

theorem byteOrderMark_prefix_encode {text : List Char} :
    byteOrderMark <+: Utf8.encode text ↔ ∃ rest, text = '\uFEFF' :: rest := by
  constructor
  · rintro ⟨bytes, hbytes⟩
    have hchar : String.utf8EncodeChar '\uFEFF' = byteOrderMark := by decide
    have hdecode := Utf8.decode_encode text
    rw [← hbytes, ← hchar] at hdecode
    unfold Utf8.decode at hdecode
    rw [Utf8.Decoder.run_append, Utf8.run_encodeChar] at hdecode
    exact ⟨_, hdecode.symm⟩
  · rintro ⟨rest, rfl⟩
    rw [encode_bom]
    exact List.prefix_append _ _

/-- `JSON.parse` takes no byte order mark for white space. -/
theorem parse_bom (text : List Char) : Json.parse ('\uFEFF' :: text) = none := by
  have hspace : Json.skipSpace ('\uFEFF' :: text) = '\uFEFF' :: text := by
    simp [Json.skipSpace, Json.isSpace]
  have hnumber : ('\uFEFF' :: text).takeWhile Json.isNumberChar = [] := by
    simp [Json.isNumberChar]
  unfold Json.parse Json.parseValue
  rw [hspace]
  simp [hnumber]
  rfl

theorem parseSessionEntryLine_bom (text : List Char) :
    parseSessionEntryLine ('\uFEFF' :: text) = none := by
  unfold parseSessionEntryLine
  rw [parse_bom]
  split_ifs <;> rfl

/-! ## Lines -/

theorem recordTexts_eq_completeLines (body : List Char) :
    recordTexts (body ++ ['\n']) = completeLines (body ++ ['\n']) := by
  unfold recordTexts completeLines
  rw [List.dropLast_concat, List.splitOn_append_cons_self]
  simp

/-- A character before the first line changes that line only. -/
theorem completeLines_cons {c : Char} (hc : c ≠ '\n') (body : List Char) :
    ∃ line lines, completeLines (body ++ ['\n']) = line :: lines ∧
      completeLines (c :: (body ++ ['\n'])) = (c :: line) :: lines := by
  have hcomplete : ∀ body : List Char, completeLines (body ++ ['\n']) = body.splitOn '\n' := by
    intro body
    unfold completeLines
    rw [List.splitOn_append_cons_self, List.splitOn_nil, List.dropLast_concat]
  obtain ⟨line, lines, hlines⟩ := List.exists_cons_of_ne_nil (List.splitOn_ne_nil '\n' body)
  refine ⟨line, lines, ?_, ?_⟩
  · rw [hcomplete, hlines]
  · rw [← List.cons_append, hcomplete, List.splitOn_cons_eq_if_modifyHead, hlines,
      if_neg (by simpa using hc), List.modifyHead_cons]

theorem getLast?_of_completePrefix {bytes : List UInt8} (hne : bytes ≠ [])
    (h : completePrefix bytes = bytes) : bytes.getLast? = some 0x0a := by
  unfold completePrefix at h
  have hdrop : bytes.reverse.dropWhile (fun byte => decide (byte ≠ 0x0a)) = bytes.reverse := by
    rw [← List.reverse_inj, List.reverse_reverse]
    exact h
  rw [← List.head?_reverse]
  cases hreverse : bytes.reverse with
  | nil => exact absurd (List.reverse_eq_nil_iff.mp hreverse) hne
  | cons byte rest =>
    rw [hreverse] at hdrop
    by_cases hbyte : byte = 0x0a
    · rw [hbyte]
      rfl
    · rw [List.dropWhile_cons_of_pos (by simpa using hbyte)] at hdrop
      have := congrArg List.length hdrop
      have hle := (List.dropWhile_suffix (fun byte => decide (byte ≠ 0x0a)) (l := rest)).length_le
      rw [List.length_cons] at this
      omega

theorem text_of_complete {text : List Char} (hne : Utf8.encode text ≠ [])
    (h : completePrefix (Utf8.encode text) = Utf8.encode text) :
    ∃ body, text = body ++ ['\n'] := by
  cases text using List.reverseRecOn with
  | nil => simp at hne
  | append_singleton body c =>
    have hlast := getLast?_of_completePrefix hne h
    rw [Utf8.encode_append, Utf8.encode_cons, Utf8.encode_nil, List.append_nil,
      List.getLast?_append_of_ne_nil] at hlast
    · rw [Utf8.getLast_encodeChar] at hlast
      exact ⟨body, by rw [hlast]⟩
    · intro hnil
      have hlength := congrArg List.length hnil
      rw [String.length_utf8EncodeChar] at hlength
      exact absurd hlength c.utf8Size_pos.ne'

/-! ## Loading -/

/-- The loader and the context builder read the file as the report says. -/
def LoadsAs (bytes : List UInt8) (report : Report) : Prop :=
  ∃ header, report.header = some header ∧ loadEntries bytes = header :: report.entries ∧
    contextPath report.entries none (indexEntries report.entries) = .ok report.activeBranch

section Certified

variable {platform : Platform} {bytes : List UInt8} {report : Report}

theorem ValidHeader.truthy {header : Json} (h : ValidHeader header) : header.truthy = true := by
  have hsession := h.session
  unfold isSession hasType at hsession
  rw [decide_eq_true_eq] at hsession
  have hrecord := Json.isRecord_of_get? hsession
  cases header <;> first | rfl | simp [Json.isRecord] at hrecord

theorem ValidHeader.hasHeader {header : Json} (h : ValidHeader header) (entries : List FileEntry) :
    hasHeader (header :: entries) = true := by
  have hfields := h.fields
  unfold validHeaderFields at hfields
  simp only [Bool.and_eq_true] at hfields
  obtain ⟨id, hid, -⟩ := nonEmptyString_eq_true.mp hfields.1.1.1
  unfold CodingAgent.hasHeader entryId
  simp only [h.session, hid, Bool.and_self]

theorem truthy_of_valid {entry : FileEntry} (h : validEntryShape platform entry = true) :
    entry.truthy = true := by
  have hrecord := isRecord_of_validEntryShape h
  cases entry <;> first | rfl | simp [Json.isRecord] at hrecord

theorem filterMap_of_map {α β : Type} {f : α → Option β} {items : List α} {values : List β}
    (h : items.map f = values.map some) : items.filterMap f = values := by
  have hcompose : items.filterMap f = (items.map f).filterMap id := by
    rw [List.filterMap_map]
    rfl
  rw [hcompose, h, List.filterMap_map]
  exact List.filterMap_some

theorem Passed.contextPath_eq {header : FileEntry} (h : Passed platform bytes report header) :
    contextPath report.entries none (indexEntries report.entries) = .ok report.activeBranch := by
  have hforest := h.healthy.forest
  obtain ⟨hchain, -, hlast⟩ := hforest.rootPath_iff.mp h.branch
  unfold contextPath contextLeaf
  simp only [reduceCtorEq, if_false, isTruthy, Option.any_none, Bool.false_eq_true, Option.orElse_none]
  cases hleaf : report.entries.getLast? with
  | none =>
    rw [hleaf, List.getLast?_eq_none_iff] at hlast
    rw [hlast]
  | some leaf =>
    obtain ⟨path, -, hpath, hpathLast, hpathChain, -⟩ :=
      hforest.path (List.mem_of_getLast? hleaf)
    simp only
    rw [hpath, hpathChain.unique hchain hpathLast (hlast.trans hleaf)]

theorem Passed.filter_truthy {header : FileEntry} (h : Passed platform bytes report header) :
    report.entries.filter Json.truthy = report.entries := by
  rw [List.filter_eq_self]
  intro entry hentry
  exact truthy_of_valid (h.healthy.forest.valid entry hentry)

/-- A file that passes the inspection is loaded as the report says exactly when it does not start
with a byte order mark. -/
theorem loadsAs_iff (h : inspectSessionIntegrity platform bytes = .ok report)
    (hok : report.ok = true) : LoadsAs bytes report ↔ ¬ byteOrderMark <+: bytes := by
  obtain ⟨header, hpassed⟩ := passed_of_ok h hok
  obtain ⟨text, htext, hvalues⟩ := hpassed.healthy.reads
  obtain ⟨full, rfl, rfl⟩ := Utf8.decodeFatal_eq_some htext
  obtain ⟨body, hbody⟩ := text_of_complete hpassed.healthy.nonempty hpassed.complete
  have hload : loadEntries (Utf8.encode full) =
      if hasHeader (parseLines (completeLines full)) then parseLines (completeLines full) else [] := by
    unfold loadEntries
    rw [Utf8.decode_encode]
  have hothers : hasHeader report.entries = false := by
    unfold CodingAgent.hasHeader
    cases hentries : report.entries with
    | nil => rfl
    | cons entry entries =>
      have hsession := hpassed.healthy.others entry (by rw [hentries]; simp)
      simp only [hsession, Bool.false_and]
  rw [byteOrderMark_prefix_encode]
  by_cases hbom : ∃ rest, full = '\uFEFF' :: rest
  · -- the first line is no JSON for the loader, and no other line is a header
    refine iff_of_false ?_ (not_not_intro hbom)
    obtain ⟨rest, rfl⟩ := hbom
    have hrest : ∃ body', rest = body' ++ ['\n'] := by
      cases body with
      | nil => simp at hbody
      | cons c body =>
        rw [List.cons_append] at hbody
        exact ⟨body, (List.cons.inj hbody).2⟩
    obtain ⟨body', rfl⟩ := hrest
    have hdrop : Utf8.dropBom false ('\uFEFF' :: (body' ++ ['\n'])) = body' ++ ['\n'] := by
      simp [Utf8.dropBom]
    rw [hdrop, recordTexts_eq_completeLines] at hvalues
    obtain ⟨line, lines, hplain, hmarked⟩ := completeLines_cons (c := '\uFEFF') (by decide) body'
    rw [hplain, List.map_cons, List.map_cons] at hvalues
    have hparse : parseLines (completeLines ('\uFEFF' :: (body' ++ ['\n']))) = report.entries := by
      unfold parseLines
      rw [hmarked, List.filterMap_cons_none (parseSessionEntryLine_bom line),
        filterMap_of_map (List.cons.inj hvalues).2]
      exact hpassed.filter_truthy
    rintro ⟨header', -, hloaded, -⟩
    rw [hload, hparse, hothers] at hloaded
    simp at hloaded
  · refine iff_of_true ?_ hbom
    have hdrop : Utf8.dropBom false full = full := by
      cases hfull : full with
      | nil => rfl
      | cons c rest =>
        have hc : c ≠ '\uFEFF' := by
          rintro rfl
          exact hbom ⟨rest, hfull⟩
        simp [Utf8.dropBom, hc]
    rw [hdrop, hbody, recordTexts_eq_completeLines, ← hbody] at hvalues
    have hparse : parseLines (completeLines full) = header :: report.entries := by
      unfold parseLines
      rw [filterMap_of_map hvalues, List.filter_cons_of_pos hpassed.healthy.header.truthy,
        hpassed.filter_truthy]
    refine ⟨header, hpassed.header_eq, ?_, hpassed.contextPath_eq⟩
    rw [hload, hparse, if_pos (hpassed.healthy.header.hasHeader report.entries)]

end Certified

/-! ## Two files -/

/-- A platform on which every time is the start of 2026. -/
def newYearPlatform : Platform where
  sha256 := fun _ => String.ofList (List.replicate 64 '0')
  sha256_hex := isSha256_zeros
  getTime := fun _ => some (.ofNat 1767225600000)
  join := fun dir name => dir ++ "/" ++ name

/-- The text of a session with one message. -/
def greetingText : List Char :=
  serializeFileEntries
    [sessionHeader "s" "2026-01-01T00:00:00.000Z" "/tmp" none,
      makeEntry (.message (.obj [("role", .str "user"), ("content", .str "a"),
        ("timestamp", .num .zero)])) "11111111" (some .null) "2026-01-01T00:00:00.000Z"]

/-- The same text after a byte order mark. -/
def markedText : List Char := '\uFEFF' :: greetingText

/-- The report on a text. -/
def reportOn (text : List Char) : Report :=
  (inspectSessionIntegrity newYearPlatform (Utf8.encode text)).toOption.getD
    ⟨false, ⟨0, ""⟩, ⟨⟨0, ""⟩, 0⟩, none, none, [], none, [], [], none, []⟩

theorem reportOn_eq (text : List Char) :
    inspectSessionIntegrity newYearPlatform (Utf8.encode text) = .ok (reportOn text) := by
  obtain ⟨report, hreport⟩ := inspectSessionIntegrity_ok newYearPlatform (Utf8.encode text) none
  unfold reportOn
  rw [hreport]
  rfl

theorem reportOn_greetingText : (reportOn greetingText).ok = true := by
  decide +kernel

theorem reportOn_markedText : (reportOn markedText).ok = true := by
  decide +kernel

theorem loadsAs_greetingText : LoadsAs (Utf8.encode greetingText) (reportOn greetingText) :=
  (loadsAs_iff (reportOn_eq greetingText) reportOn_greetingText).mpr (by decide +kernel)

/-- The file with the byte order mark passes the inspection, and the loader finds nothing in it. -/
theorem not_loadsAs_markedText :
    inspectSessionIntegrity newYearPlatform (Utf8.encode markedText) = .ok (reportOn markedText) ∧
      (reportOn markedText).ok = true ∧ loadEntries (Utf8.encode markedText) = [] ∧
      ¬ LoadsAs (Utf8.encode markedText) (reportOn markedText) := by
  have hload : loadEntries (Utf8.encode markedText) = [] := by decide +kernel
  refine ⟨reportOn_eq markedText, reportOn_markedText, hload, ?_⟩
  rintro ⟨header, -, hloaded, -⟩
  rw [hload] at hloaded
  simp at hloaded

end CodingAgent.Integrity
