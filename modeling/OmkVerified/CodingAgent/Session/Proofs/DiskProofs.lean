import OmkVerified.CodingAgent.Session.Proofs.LabelProofs

/-!
# Durable heads

The head of a file depends on its bytes, its generation, the id of its header, the leaf and the id
of the last record. A session that the manager wrote has a head whenever its ids are metadata texts.
-/

namespace CodingAgent

open Lib

/-! ## File identities -/

theorem decimalText_toDigits {n : Nat} (h : n < 2 ^ 64) :
    DecimalText (String.ofList (Nat.toDigits 10 n)) where
  ne_empty := by
    intro heq
    have hlist := congrArg String.toList heq
    rw [String.toList_ofList] at hlist
    exact Nat.toDigits_ne_nil hlist
  length_le := by
    have hlen : (Nat.toDigits 10 n).length ≤ 20 :=
      (Nat.length_toDigits_le_iff (by omega) (by omega)).mpr (by omega)
    rw [jsLength_eq, String.toList_ofList]
    · omega
    · intro c hc
      rw [String.toList_ofList] at hc
      have hdigit := Nat.isDigit_of_mem_toDigits (by omega) (by omega) hc
      rw [Char.isDigit_iff_toNat] at hdigit
      have hnine : '9'.toNat = 57 := rfl
      omega
  digits := by
    rw [String.toList_ofList, List.any_eq_false]
    intro c hc
    simp [Nat.isDigit_of_mem_toDigits (by omega) (by omega) hc]

theorem Generation.identity_ok (generation : Generation) : generation.identity.Ok where
  dev := decimalText_toDigits generation.dev.toNat_lt
  ino := decimalText_toDigits generation.ino.toNat_lt

/-! ## Heads -/

/-- The id of the last record as a text. -/
def lastString (entries : List FileEntry) : Option String :=
  match lastStringId entries with
  | .str id => some id
  | _ => none

theorem lastStringId_eq (entries : List FileEntry) :
    lastStringId entries = nullable (lastString entries) := by
  have hcases : lastStringId entries = .null ∨ ∃ id, lastStringId entries = .str id := by
    unfold lastStringId
    split
    · split_ifs
      · exact .inl rfl
      · split
        · exact .inr ⟨_, rfl⟩
        · exact .inl rfl
    · exact .inl rfl
  unfold lastString
  rcases hcases with h | ⟨id, h⟩
  · rw [h]
    rfl
  · rw [h]
    rfl

theorem nullable_injective : Function.Injective nullable := by
  intro a b h
  cases a <;> cases b
  · rfl
  · exact absurd h (by simp [nullable])
  · exact absurd h (by simp [nullable])
  · rw [Json.str.inj h]

/-- The revision of a file. -/
def fileRevision (platform : Platform) (file : DiskFile) (sessionId : String)
    (leafId lastEntryId : Option String) : SessionRevisionToken :=
  ⟨sessionId, file.bytes.length, file.bytes.count 0x0a, leafId, lastEntryId,
    platform.sha256 file.bytes, some file.generation.identity⟩

variable {entries : List FileEntry} {sessionId : String}

/-- When a file has a head, and which. -/
theorem sessionDurableHeadFromSnapshot_eq_ok {platform : Platform} {file : DiskFile}
    {leaf : Option Json} (hheader : headerId entries = some sessionId) {head : Option DurableHead} :
    sessionDurableHeadFromSnapshot platform file leaf entries = .ok head ↔
      ∃ leafId, leaf = some (nullable leafId) ∧
        (fileRevision platform file sessionId leafId (lastString entries)).Ok ∧
        head = some ⟨fileRevision platform file sessionId leafId (lastString entries),
          file.generation⟩ := by
  have hidentity : copyFileIdentity (some file.generation.identity.toJson) =
      .ok (some file.generation.identity) := by
    apply @copyFileIdentity_toJson (some file.generation.identity)
    intro i hi
    obtain rfl := Option.some.inj hi
    exact file.generation.identity_ok
  unfold sessionDurableHeadFromSnapshot
  simp only [hheader]
  rw [bind_eq_ok]
  constructor
  · rintro ⟨token, htoken, hhead⟩
    obtain ⟨fields, hfields, hread, hok⟩ := createSessionRevisionToken_eq_ok.mp htoken
    obtain rfl := Json.obj.inj (Option.some.inj hfields)
    cases leaf with
    | none =>
      have habsent : none = some (nullable token.leafId) := hread.leafId
      exact absurd habsent (by simp)
    | some leaf =>
      obtain ⟨tokenSession, tokenBytes, tokenCount, tokenLeaf, tokenLast, tokenSha, tokenIdentity⟩ :=
        token
      obtain ⟨d, hd, hbytes⟩ := hread.completeBytes
      obtain ⟨d₂, hd₂, hcount⟩ := hread.recordCount
      obtain rfl := Json.num.inj (Option.some.inj hd)
      obtain rfl := Json.num.inj (Option.some.inj hd₂)
      obtain rfl := Json.str.inj (Option.some.inj hread.sessionId)
      obtain rfl := Option.some.inj ((Decimal.toNat?_ofNat _).symm.trans hbytes)
      obtain rfl := Option.some.inj ((Decimal.toNat?_ofNat _).symm.trans hcount)
      obtain rfl := Json.str.inj (Option.some.inj hread.sha256)
      obtain rfl := Except.ok.inj (hidentity.symm.trans hread.fileIdentity)
      have hleaf : some leaf = some (nullable tokenLeaf) := hread.leafId
      have hlast : some (lastStringId entries) = some (nullable tokenLast) := hread.lastEntryId
      rw [lastStringId_eq] at hlast
      obtain rfl := nullable_injective (Option.some.inj hlast)
      exact ⟨tokenLeaf, hleaf, hok, (Except.ok.inj hhead).symm⟩
  · rintro ⟨leafId, rfl, hok, rfl⟩
    refine ⟨_, createSessionRevisionToken_eq_ok.mpr ⟨_, rfl, ?_, hok⟩, rfl⟩
    refine ⟨rfl, rfl, rfl, get?_number rfl, get?_number rfl, rfl, ?_, rfl, hidentity⟩
    show some (lastStringId entries) = _
    rw [lastStringId_eq]
    rfl

/-- The head of a file on the disk. -/
theorem sessionDurableHeadFromFile_eq_ok {platform : Platform} {disk : Disk} {path : String}
    {file : DiskFile} {leaf : Option Json} (hfile : disk.get? path = some file)
    (hheader : headerId entries = some sessionId) {head : Option DurableHead} :
    sessionDurableHeadFromFile platform disk path leaf entries = .ok head ↔
      ∃ leafId, leaf = some (nullable leafId) ∧
        (fileRevision platform file sessionId leafId (lastString entries)).Ok ∧
        head = some ⟨fileRevision platform file sessionId leafId (lastString entries),
          file.generation⟩ := by
  unfold sessionDurableHeadFromFile
  simp only [hfile, hheader]
  rw [bind_eq_ok]
  constructor
  · rintro ⟨-, -, h⟩
    exact (sessionDurableHeadFromSnapshot_eq_ok hheader).mp h
  · rintro ⟨leafId, hleaf, hok, hhead⟩
    have hsize : file.bytes.length ≤ maxSafeInteger := hok.completeBytes
    exact ⟨(), require_eq_ok.mpr (by simpa using hsize),
      (sessionDurableHeadFromSnapshot_eq_ok hheader).mpr ⟨leafId, hleaf, hok, hhead⟩⟩

/-! ## Written sessions -/

theorem count_recordLines (entries : List FileEntry) :
    (recordLines entries).count '\n' = entries.length := by
  induction entries with
  | nil => rfl
  | cons e entries ih =>
    have hlines : recordLines (e :: entries) = Json.stringify e ++ '\n' :: recordLines entries := by
      simp [recordLines]
    rw [hlines, List.count_append, List.count_cons_self, ih,
      List.count_eq_zero_of_not_mem (Json.lineFeed_not_mem_stringify e), List.length_cons]
    omega

/-- The header id of records that start with a header. -/
theorem headerId_cons {header : FileEntry} {id : String} (hsession : isSession header = true)
    (hid : entryId header = some (.str id)) (entries : List FileEntry) :
    headerId (header :: entries) = some id := by
  simp [headerId, hsession, hid]

/-- The revision of written records passes its checks when the ids are metadata. -/
theorem fileRevision_ok (platform : Platform) (generation : Generation)
    {leafId lastEntryId : Option String} (hne : entries ≠ [])
    (hsession : MetadataText maxMetadataLength sessionId)
    (hsize : Utf8.byteLength (serializeFileEntries entries) ≤ maxSafeInteger)
    (hleaf : ∀ id ∈ leafId, MetadataText maxMetadataLength id)
    (hlast : ∀ id ∈ lastEntryId, MetadataText maxMetadataLength id)
    (hboth : leafId.isSome = true → lastEntryId.isSome = true) :
    (fileRevision platform ⟨Utf8.encode (serializeFileEntries entries), generation⟩ sessionId leafId
      lastEntryId).Ok := by
  have hcount : (Utf8.encode (serializeFileEntries entries)).count 0x0a = entries.length := by
    rw [Utf8.count_lineFeed_encode, serializeFileEntries_eq hne, count_recordLines]
  have hlen := length_le_byteLength hne
  have hpos : entries.length ≠ 0 := by simpa using hne
  have hbytes : (Utf8.encode (serializeFileEntries entries)).length ≠ 0 := by
    unfold Utf8.byteLength at hlen
    omega
  refine ⟨hsession, hsize, ?_, hleaf, hlast, platform.sha256_hex _, ?_, ?_⟩
  · show (Utf8.encode (serializeFileEntries entries)).count 0x0a ≤ maxSafeInteger
    rw [hcount]
    exact hlen.trans hsize
  · unfold checkRevision fileRevision
    simp only [hcount, bind_eq_ok, require_eq_ok, Bool.or_eq_true]
    refine ⟨(), by simp [hpos, hbytes], (), by simp [hpos], (), ?_, by simp [hbytes]⟩
    cases leafId with
    | none => exact .inl rfl
    | some leaf => exact .inr (hboth rfl)
  · intro i hi
    obtain rfl := Option.some.inj hi
    exact generation.identity_ok

end CodingAgent
