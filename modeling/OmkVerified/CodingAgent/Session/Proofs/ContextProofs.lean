import OmkVerified.CodingAgent.Session.Proofs.RebindProofs

/-!
# The context of a copied branch

The messages of a context come neither from labels nor from compaction envelopes: a branch whose
envelopes were rebound, followed by any labels, has the messages of the branch it was copied from.
-/

namespace CodingAgent

open Lib

/-! ## Labels -/

variable {a b entry : FileEntry}

theorem hasType_eq_false {type other : String} (h : hasType entry type = true)
    (hne : type ≠ other) :
    hasType entry other = false := by
  unfold hasType at h ⊢
  rw [decide_eq_true_eq] at h
  rw [h, decide_eq_false_iff_not]
  intro heq
  exact hne (Json.str.inj (Option.some.inj heq))

theorem Settings.step_label (s : Settings) (h : hasType entry "label" = true) :
    s.step entry = .ok s := by
  unfold Settings.step
  simp [hasType_eq_false h (show "label" ≠ "thinking_level_change" by decide),
    hasType_eq_false h (show "label" ≠ "model_change" by decide),
    hasType_eq_false h (show "label" ≠ "message" by decide),
    hasType_eq_false h (show "label" ≠ "compaction" by decide)]

theorem entryMessage_label (platform : Platform) (h : hasType entry "label" = true) :
    entryMessage platform entry = [] := by
  unfold entryMessage
  simp [hasType_eq_false h (show "label" ≠ "message" by decide),
    hasType_eq_false h (show "label" ≠ "custom_message" by decide),
    hasType_eq_false h (show "label" ≠ "branch_summary" by decide)]

variable {as bs labels : List FileEntry} {α β : Type}

theorem foldlM_labels (s : Settings) (h : ∀ e ∈ labels, hasType e "label" = true) :
    labels.foldlM Settings.step s = .ok s := by
  induction labels with
  | nil => rfl
  | cons e labels ih =>
    rw [List.foldlM_cons, s.step_label (h e (by simp)), ok_bind]
    exact ih fun x hx => h x (by simp [hx])

theorem flatMap_labels (platform : Platform) (h : ∀ e ∈ labels, hasType e "label" = true) :
    labels.flatMap (entryMessage platform) = [] := by
  rw [List.flatMap_eq_nil_iff]
  intro e he
  exact entryMessage_label platform (h e he)

/-- The compaction that the first pass finds is a compaction of the path. -/
theorem compaction_mem {path : List FileEntry} {s t : Settings}
    (h : path.foldlM Settings.step s = .ok t) {compaction : FileEntry}
    (hc : t.compaction = some compaction) :
    s.compaction = some compaction ∨ (compaction ∈ path ∧ hasType compaction "compaction" = true) := by
  induction path generalizing s with
  | nil =>
    obtain rfl := Except.ok.inj h
    exact .inl hc
  | cons e path ih =>
    rw [List.foldlM_cons] at h
    obtain ⟨s', hstep, h⟩ := bind_eq_ok.mp h
    rcases ih h with hs' | ⟨hmem, htype⟩
    · have hcases : s'.compaction = s.compaction ∨
          (s'.compaction = some e ∧ hasType e "compaction" = true) := by
        unfold Settings.step at hstep
        split_ifs at hstep with h1 h2 h3 h4
        · obtain rfl := Except.ok.inj hstep
          exact .inl rfl
        · obtain rfl := Except.ok.inj hstep
          exact .inl rfl
        · split at hstep
          · exact absurd hstep (by simp)
          · split_ifs at hstep <;>
            · obtain rfl := Except.ok.inj hstep
              exact .inl rfl
        · obtain rfl := Except.ok.inj hstep
          exact .inr ⟨rfl, h4⟩
        · obtain rfl := Except.ok.inj hstep
          exact .inl rfl
      rcases hcases with heq | ⟨heq, htype⟩
      · exact .inl (heq ▸ hs')
      · obtain rfl : e = compaction := Option.some.inj (heq.symm.trans hs')
        exact .inr ⟨by simp, htype⟩
    · exact .inr ⟨List.mem_cons_of_mem _ hmem, htype⟩

/-- Labels after a path keep the entries that contribute messages, but for the labels. -/
theorem keptEntries_append {path : List FileEntry} {compaction : FileEntry}
    (hmem : compaction ∈ path) (htype : hasType compaction "compaction" = true) :
    keptEntries (path ++ labels) compaction = keptEntries path compaction ++ labels := by
  have hlt : (path.findIdx fun e =>
      hasType e "compaction" && decide (entryId e = entryId compaction)) < path.length :=
    List.findIdx_lt_length_of_exists ⟨compaction, hmem, by simp [htype]⟩
  unfold keptEntries
  simp only [List.findIdx_append, if_pos hlt]
  rw [List.take_append_of_le_length (by omega), List.drop_append_of_le_length (by omega),
    List.append_assoc]

theorem pathContext_append_labels (platform : Platform) {path : List FileEntry}
    (h : ∀ e ∈ labels, hasType e "label" = true) :
    pathContext platform (path ++ labels) = pathContext platform path := by
  unfold pathContext
  rw [List.foldlM_append]
  cases hfold : path.foldlM Settings.step Settings.initial with
  | error e => rfl
  | ok t =>
    simp only [ok_bind, foldlM_labels t h]
    cases hc : t.compaction with
    | none => simp only [List.flatMap_append, flatMap_labels platform h, List.append_nil]
    | some compaction =>
      rcases compaction_mem hfold hc with habs | ⟨hmem, htype⟩
      · exact absurd habs (by simp [Settings.initial])
      · simp only [keptEntries_append hmem htype, List.flatMap_append, flatMap_labels platform h,
          List.append_nil]

/-! ## Copies -/

/-- Settings that differ in the envelope of the compaction only. -/
structure SameSettings (s t : Settings) : Prop where
  thinkingLevel : t.thinkingLevel = s.thinkingLevel
  model : t.model = s.model
  compaction : Option.Rel SameButEnvelope s.compaction t.compaction

/-- Two results that are both errors, and the same, or both values that are related. -/
inductive SameResult {α : Type} (R : α → α → Prop) : Result α → Result α → Prop
  | error (e : SessionError) : SameResult R (.error e) (.error e)
  | ok {a b : α} (h : R a b) : SameResult R (.ok a) (.ok b)

theorem messageRole_same (h : SameButEnvelope a b) : messageRole b = messageRole a := by
  unfold messageRole
  rw [h.get?_eq (by decide)]

theorem SameSettings.step {s t : Settings} (h : SameSettings s t) {a b : FileEntry}
    (hab : SameButEnvelope a b) : SameResult SameSettings (s.step a) (t.step b) := by
  unfold Settings.step
  rw [hab.hasType_eq, hab.hasType_eq, hab.hasType_eq, hab.hasType_eq, messageRole_same hab,
    hab.get?_eq (show "thinkingLevel" ≠ "details" by decide),
    hab.get?_eq (show "provider" ≠ "details" by decide),
    hab.get?_eq (show "modelId" ≠ "details" by decide),
    hab.get?_eq (show "message" ≠ "details" by decide)]
  split_ifs
  · exact .ok ⟨rfl, h.model, h.compaction⟩
  · exact .ok ⟨h.thinkingLevel, rfl, h.compaction⟩
  · cases messageRole a with
    | error e => exact .error e
    | ok role =>
      simp only
      split_ifs
      · exact .ok ⟨h.thinkingLevel, rfl, h.compaction⟩
      · exact .ok h
  · exact .ok ⟨h.thinkingLevel, h.model, .some hab⟩
  · exact .ok h

theorem SameSettings.foldlM {s t : Settings} (h : SameSettings s t)
    (hsame : List.Forall₂ SameButEnvelope as bs) :
    SameResult SameSettings (as.foldlM Settings.step s) (bs.foldlM Settings.step t) := by
  induction hsame generalizing s t with
  | nil => exact .ok h
  | cons hab _ ih =>
    rw [List.foldlM_cons, List.foldlM_cons]
    have hstep := h.step hab
    generalize Settings.step s _ = x at hstep
    generalize Settings.step t _ = y at hstep
    cases hstep with
    | error e => exact .error e
    | ok hst => exact ih hst

theorem entryMessage_same (platform : Platform) (h : SameButEnvelope a b) :
    entryMessage platform b = entryMessage platform a := by
  rcases h with rfl | ⟨htype, details, envelope, -, rfl⟩
  · rfl
  · have hb : ∀ other, "compaction" ≠ other →
        hasType (a.set "details" ((Json.obj details).set "compactionEnvelope" envelope)) other =
          false := by
      intro other hne
      unfold hasType
      rw [Json.get?_set_ne _ _ (by decide)]
      exact hasType_eq_false htype hne
    unfold entryMessage
    simp [hb "message" (by decide), hb "custom_message" (by decide),
      hb "branch_summary" (by decide), hasType_eq_false htype (show "compaction" ≠ "message" by decide),
      hasType_eq_false htype (show "compaction" ≠ "custom_message" by decide),
      hasType_eq_false htype (show "compaction" ≠ "branch_summary" by decide)]

theorem compactionSummaryMessage_same (platform : Platform) (h : SameButEnvelope a b) :
    compactionSummaryMessage platform b = compactionSummaryMessage platform a := by
  unfold compactionSummaryMessage timeField
  rw [h.get?_eq (by decide), h.get?_eq (by decide), h.get?_eq (by decide)]

theorem flatMap_entryMessage_same (platform : Platform)
    (hsame : List.Forall₂ SameButEnvelope as bs) :
    bs.flatMap (entryMessage platform) = as.flatMap (entryMessage platform) := by
  induction hsame with
  | nil => rfl
  | cons hab _ ih => rw [List.flatMap_cons, List.flatMap_cons, entryMessage_same platform hab, ih]

theorem forall₂_dropWhile {R : FileEntry → FileEntry → Prop} {p q : FileEntry → Bool}
    (hpq : ∀ a b, R a b → q b = p a) (h : List.Forall₂ R as bs) :
    List.Forall₂ R (as.dropWhile p) (bs.dropWhile q) := by
  induction h with
  | nil => exact .nil
  | cons hab hrest ih =>
    rw [List.dropWhile_cons, List.dropWhile_cons, hpq _ _ hab]
    split_ifs
    · exact ih
    · exact .cons hab hrest

theorem findIdx_same {p q : FileEntry → Bool} (hpq : ∀ a b, SameButEnvelope a b → q b = p a)
    (h : List.Forall₂ SameButEnvelope as bs) : bs.findIdx q = as.findIdx p := by
  induction h with
  | nil => rfl
  | cons hab _ ih => rw [List.findIdx_cons, List.findIdx_cons, hpq _ _ hab, ih]

theorem keptEntries_same (hsame : List.Forall₂ SameButEnvelope as bs) {c d : FileEntry}
    (hcd : SameButEnvelope c d) :
    List.Forall₂ SameButEnvelope (keptEntries as c) (keptEntries bs d) := by
  have hindex : (bs.findIdx fun e => hasType e "compaction" && decide (entryId e = entryId d)) =
      as.findIdx fun e => hasType e "compaction" && decide (entryId e = entryId c) := by
    apply findIdx_same ?_ hsame
    intro a b hab
    rw [hab.hasType_eq, hab.entryId_eq, hcd.entryId_eq]
  unfold keptEntries
  simp only [hindex]
  apply List.rel_append
  · apply forall₂_dropWhile ?_ (List.forall₂_take _ hsame)
    intro a b hab
    rw [hab.entryId_eq, hcd.get?_eq (by decide)]
  · exact List.forall₂_drop _ hsame

/-- The messages of a copied path are those of the path. -/
theorem messages_pathContext_same (platform : Platform)
    (hsame : List.Forall₂ SameButEnvelope as bs) :
    (pathContext platform bs).map SessionContext.messages =
      (pathContext platform as).map SessionContext.messages := by
  have hfold := SameSettings.foldlM (s := Settings.initial) (t := Settings.initial)
    ⟨rfl, rfl, .none⟩ hsame
  unfold pathContext
  generalize as.foldlM Settings.step Settings.initial = x at hfold
  generalize bs.foldlM Settings.step Settings.initial = y at hfold
  cases hfold with
  | error e => rfl
  | @ok s t hst =>
    simp only [ok_bind, pure_eq_ok, Except.map]
    have hcompaction := hst.compaction
    generalize s.compaction = c at hcompaction
    generalize t.compaction = d at hcompaction
    cases hcompaction with
    | none => simp only [flatMap_entryMessage_same platform hsame]
    | some hcd =>
      simp only [compactionSummaryMessage_same platform hcd,
        flatMap_entryMessage_same platform (keptEntries_same hsame hcd)]

/-! ## Steps that end -/

theorem bind_ne_diverges {x : Except SessionError α} {f : α → Except SessionError β}
    (hx : x ≠ .error .diverges) (hf : ∀ a, f a ≠ .error .diverges) :
    (x >>= f) ≠ .error .diverges := by
  cases x with
  | error e => simpa [bind, Except.bind] using hx
  | ok a => exact hf a

theorem pure_ne_diverges (a : α) : (pure a : Except SessionError α) ≠ .error .diverges := by
  simp

theorem foldlM_ne_diverges {f : β → α → Except SessionError β} (h : ∀ b a, f b a ≠ .error .diverges)
    (items : List α) (b : β) : items.foldlM f b ≠ .error .diverges := by
  induction items generalizing b with
  | nil => exact pure_ne_diverges b
  | cons a items ih =>
    rw [List.foldlM_cons]
    exact bind_ne_diverges (h b a) ih

theorem mapM_ne_diverges {f : α → Except SessionError β} (h : ∀ a, f a ≠ .error .diverges)
    (items : List α) : items.mapM f ≠ .error .diverges := by
  induction items with
  | nil => exact pure_ne_diverges []
  | cons a items ih =>
    rw [List.mapM_cons]
    exact bind_ne_diverges (h a) fun _ => bind_ne_diverges ih fun _ => pure_ne_diverges _

theorem messageRole_ne_diverges (entry : FileEntry) : messageRole entry ≠ .error .diverges := by
  unfold messageRole
  split <;> simp

theorem step_ne_diverges (s : Settings) (entry : FileEntry) : s.step entry ≠ .error .diverges := by
  unfold Settings.step
  split_ifs
  · simp
  · simp
  · cases hrole : messageRole entry with
    | error e =>
      intro heq
      exact messageRole_ne_diverges entry (hrole.trans (by simpa using heq))
    | ok role =>
      simp only
      split_ifs <;> simp
  · simp
  · simp

theorem pathContext_ne_diverges (platform : Platform) (path : List FileEntry) :
    pathContext platform path ≠ .error .diverges := by
  unfold pathContext
  exact bind_ne_diverges (foldlM_ne_diverges step_ne_diverges path _) fun _ => pure_ne_diverges _

end CodingAgent
