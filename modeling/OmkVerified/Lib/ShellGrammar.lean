import Mathlib

/-!
# The grammar of quoted shell texts

A text of a POSIX shell is cut into separators and words, and a word into the pieces that the removal of
quotes reads. A text is a list of code units, and which units separate words is a parameter. A text has at
most one reading.
-/

namespace Lib.ShellGrammar

abbrev Text := List Nat

abbrev doubleQuote : Nat := 0x22

abbrev singleQuote : Nat := 0x27

abbrev backslash : Nat := 0x5c

abbrev dollar : Nat := 0x24

abbrev newline : Nat := 0x0a

abbrev backquote : Nat := 0x60

abbrev openBrace : Nat := 0x7b

abbrev closeBrace : Nat := 0x7d

/-! ## Codes -/

/-- How an item is written, and which texts may follow it. -/
structure Code (α : Type) where
  render : α → Text
  Proper : α → Text → Prop

variable {α : Type}

def Code.text (code : Code α) (items : List α) : Text := items.flatMap code.render

/-- Every item may stand before what follows it, the last one before `after`. -/
def Code.Spells (code : Code α) : List α → (after : Text) → Prop
  | [], _ => True
  | item :: items, after => code.Proper item (code.text items ++ after) ∧ code.Spells items after

/-- The front of a text tells its first item. -/
def Code.Prefixed (code : Code α) : Prop :=
  ∀ {left right : α} {x y : Text}, code.Proper left x → code.Proper right y →
    code.render left ++ x = code.render right ++ y → left = right ∧ x = y

@[simp]
theorem Code.text_nil (code : Code α) : code.text [] = [] := rfl

@[simp]
theorem Code.text_cons (code : Code α) (item : α) (items : List α) :
    code.text (item :: items) = code.render item ++ code.text items := rfl

variable {x y right : Text}

/-- A text has one reading up to a place where no item starts. -/
theorem Code.unique {code : Code α} (hcode : code.Prefixed) (Stop : Text → Prop)
    (hstop : ∀ {item : α} {x : Text}, code.Proper item x → ¬ Stop (code.render item ++ x))
    {left right : List α} (hleft : code.Spells left x) (hright : code.Spells right y) (hx : Stop x)
    (hy : Stop y) (h : code.text left ++ x = code.text right ++ y) : left = right ∧ x = y := by
  induction left generalizing right with
  | nil =>
    cases right with
    | nil => exact ⟨rfl, h⟩
    | cons item items =>
      rw [Code.text_cons, List.append_assoc] at h
      exact absurd (h ▸ hx) (hstop hright.1)
  | cons item items ih =>
    cases right with
    | nil =>
      rw [Code.text_cons, List.append_assoc] at h
      exact absurd (h ▸ hy) (hstop hleft.1)
    | cons other others =>
      rw [Code.text_cons, Code.text_cons, List.append_assoc, List.append_assoc] at h
      obtain ⟨rfl, hrest⟩ := hcode hleft.1 hright.1 h
      obtain ⟨rfl, hafter⟩ := ih hleft.2 hright.2 hrest
      exact ⟨rfl, hafter⟩

/-- A run of units ends at the first one that does not belong to it. -/
theorem run_unique {p : Nat → Bool} {left : Text} (hleft : ∀ c ∈ left, p c = true)
    (hright : ∀ c ∈ right, p c = true) (hx : ∀ c ∈ x.head?, p c = false)
    (hy : ∀ c ∈ y.head?, p c = false) (h : left ++ x = right ++ y) : left = right ∧ x = y := by
  induction left generalizing right with
  | nil =>
    cases right with
    | nil => exact ⟨rfl, h⟩
    | cons c right =>
      have hc := hright c List.mem_cons_self
      rw [List.nil_append] at h
      rw [h] at hx
      rw [hx c rfl] at hc
      cases hc
  | cons c left ih =>
    cases right with
    | nil =>
      have hc := hleft c List.mem_cons_self
      rw [List.nil_append] at h
      rw [← h] at hy
      rw [hy c rfl] at hc
      cases hc
    | cons d right =>
      rw [List.cons_append, List.cons_append] at h
      obtain ⟨rfl, htail⟩ := List.cons.inj h
      obtain ⟨rfl, hrest⟩ := ih (fun e he => hleft e (List.mem_cons_of_mem _ he))
        (fun e he => hright e (List.mem_cons_of_mem _ he)) htail
      exact ⟨rfl, hrest⟩

/-! ## References -/

def isNameStart (c : Nat) : Bool := (0x41 ≤ c && c ≤ 0x5a) || (0x61 ≤ c && c ≤ 0x7a) || c = 0x5f

def isNamePart (c : Nat) : Bool := isNameStart c || (0x30 ≤ c && c ≤ 0x39)

/-- A reference to a variable, `$name` or one with braces around the name. -/
structure Reference where
  name : Text
  braced : Bool

/-- What follows the dollar sign. -/
def Reference.body (reference : Reference) : Text :=
  if reference.braced then openBrace :: (reference.name ++ [closeBrace]) else reference.name

def Reference.render (reference : Reference) : Text := dollar :: reference.body

def isName (name : Text) : Bool := name.head?.any isNameStart && name.all isNamePart

/-- The name is a name, and without braces it is read as far as it goes. -/
def Reference.Proper (reference : Reference) (after : Text) : Prop :=
  isName reference.name = true ∧
    (reference.braced = false → ∀ c ∈ after.head?, isNamePart c = false)

theorem all_of_isName {name : Text} (h : isName name = true) : ∀ c ∈ name, isNamePart c = true :=
  List.all_eq_true.mp (Bool.and_eq_true_iff.mp h).2

theorem Reference.unique {left right : Reference} (hleft : left.Proper x) (hright : right.Proper y)
    (h : left.render ++ x = right.render ++ y) : left = right ∧ x = y := by
  obtain ⟨name, braced⟩ := left
  obtain ⟨other, otherBraced⟩ := right
  have hname : isName name = true := hleft.1
  have hother : isName other = true := hright.1
  have hbrace : ∀ {name : Text} {x y : Text}, isName name = true → name ++ x ≠ openBrace :: y := by
    intro name x y hname hsame
    cases name with
    | nil => cases hname
    | cons c name =>
      obtain ⟨rfl, -⟩ := List.cons.inj hsame
      have := all_of_isName hname openBrace List.mem_cons_self
      exact absurd this (by decide)
  cases braced <;> cases otherBraced <;>
    simp only [render, body, Bool.false_eq_true, if_true, if_false, List.cons_append, List.cons.injEq,
      true_and, List.append_assoc] at h
  case false.false =>
    obtain ⟨rfl, hrest⟩ := run_unique (all_of_isName hname) (all_of_isName hother) (hleft.2 rfl)
      (hright.2 rfl) h
    exact ⟨rfl, hrest⟩
  case false.true => exact absurd h (hbrace hname)
  case true.false => exact absurd h.symm (hbrace hother)
  case true.true =>
    have hclose : ∀ {after : Text}, ∀ c ∈ (closeBrace :: after).head?, isNamePart c = false := by
      intro after c hc
      obtain rfl := Option.some.inj hc
      decide
    obtain ⟨rfl, hrest⟩ := run_unique (all_of_isName hname) (all_of_isName hother) hclose hclose h
    exact ⟨rfl, (List.cons.inj hrest).2⟩

/-! ## Double quotes -/

/-- What stands between double quotes. -/
inductive Quoted
  | plain (c : Nat)
  /-- A backslash before a unit that it does not escape. -/
  | backslash
  | escaped (c : Nat)
  | continuation
  | reference (reference : Reference)

/-- The units that a backslash escapes between double quotes. -/
def isEscapable (c : Nat) : Bool :=
  c = ShellGrammar.backslash || c = doubleQuote || c = dollar || c = backquote

def Quoted.render : Quoted → Text
  | plain c => [c]
  | backslash => [ShellGrammar.backslash]
  | escaped c => [ShellGrammar.backslash, c]
  | continuation => [ShellGrammar.backslash, newline]
  | reference r => r.render

def Quoted.Proper : Quoted → (after : Text) → Prop
  | plain c, _ => isEscapable c = false
  | backslash, after => ∃ c ∈ after.head?, isEscapable c = false ∧ c ≠ newline
  | escaped c, _ => isEscapable c = true
  | continuation, _ => True
  | reference r, after => r.Proper after

def quotedCode : Code Quoted := ⟨Quoted.render, Quoted.Proper⟩

theorem prefixed_quotedCode : quotedCode.Prefixed := by
  intro left right x y hleft hright h
  change left.render ++ x = right.render ++ y at h
  change left.Proper x at hleft
  change right.Proper y at hright
  rcases left with c | _ | c | _ | r <;> rcases right with d | _ | d | _ | s
  case reference.reference =>
    obtain ⟨rfl, hrest⟩ := Reference.unique hleft hright h
    exact ⟨rfl, hrest⟩
  case escaped.backslash =>
    obtain ⟨d, hd, hplain, -⟩ := hright
    obtain rfl : c :: x = y := (List.cons.inj h).2
    obtain rfl := Option.some.inj hd
    exact absurd hleft (by simp [Quoted.Proper, hplain])
  case continuation.backslash =>
    obtain ⟨d, hd, -, hline⟩ := hright
    obtain rfl : newline :: x = y := (List.cons.inj h).2
    exact absurd (Option.some.inj hd).symm hline
  case continuation.escaped =>
    obtain ⟨rfl, -⟩ := List.cons.inj (List.cons.inj h).2
    exact absurd hright (by simp [Quoted.Proper, isEscapable])
  all_goals simp_all [Quoted.render, Reference.render, Quoted.Proper, isEscapable]

/-! ## Words -/

/-- A piece of a word. -/
inductive Piece
  | bare (c : Nat)
  | escaped (c : Nat)
  | continuation
  | reference (reference : Reference)
  | single (text : Text)
  | double (items : List Quoted)

def Piece.render : Piece → Text
  | bare c => [c]
  | escaped c => [backslash, c]
  | continuation => [backslash, newline]
  | reference r => r.render
  | single text => singleQuote :: (text ++ [singleQuote])
  | double items => doubleQuote :: (quotedCode.text items ++ [doubleQuote])

/-- A unit with a meaning of its own outside of quotes. -/
def isQuoting (c : Nat) : Bool :=
  c = backslash || c = doubleQuote || c = singleQuote || c = dollar || c = backquote

def Piece.Proper (isBoundary : Nat → Bool) : Piece → (after : Text) → Prop
  | bare c, _ => isQuoting c = false ∧ isBoundary c = false
  | escaped c, _ => c ≠ newline
  | continuation, _ => True
  | reference r, after => r.Proper after
  | single text, _ => singleQuote ∉ text
  | double items, after => quotedCode.Spells items (doubleQuote :: after)

def pieceCode (isBoundary : Nat → Bool) : Code Piece := ⟨Piece.render, Piece.Proper isBoundary⟩

variable {isBoundary : Nat → Bool}

theorem quoted_closes {item : Quoted} (h : quotedCode.Proper item x) :
    quotedCode.render item ++ x ≠ doubleQuote :: y := by
  change item.Proper x at h
  change item.render ++ x ≠ doubleQuote :: y
  cases item <;> simp_all [Quoted.render, Reference.render, Quoted.Proper, isEscapable]

theorem double_unique {left right : List Quoted} (hleft : quotedCode.Spells left (doubleQuote :: x))
    (hright : quotedCode.Spells right (doubleQuote :: y))
    (h : quotedCode.text left ++ doubleQuote :: x = quotedCode.text right ++ doubleQuote :: y) :
    left = right ∧ x = y := by
  obtain ⟨rfl, hrest⟩ := Code.unique prefixed_quotedCode (fun text => ∃ z, text = doubleQuote :: z)
    (fun hitem => by
      rintro ⟨z, hz⟩
      exact quoted_closes hitem hz) hleft hright ⟨x, rfl⟩ ⟨y, rfl⟩ h
  exact ⟨rfl, (List.cons.inj hrest).2⟩

theorem single_unique {left : Text} (hleft : singleQuote ∉ left) (hright : singleQuote ∉ right)
    (h : left ++ singleQuote :: x = right ++ singleQuote :: y) : left = right ∧ x = y := by
  have hplain : ∀ {text : Text}, singleQuote ∉ text → ∀ c ∈ text, (c != singleQuote) = true := by
    intro text htext c hc
    exact bne_iff_ne.mpr (ne_of_mem_of_not_mem hc htext)
  have hclose : ∀ {after : Text}, ∀ c ∈ (singleQuote :: after).head?, (c != singleQuote) = false := by
    intro after c hc
    obtain rfl := Option.some.inj hc
    rfl
  obtain ⟨rfl, hrest⟩ := run_unique (hplain hleft) (hplain hright) hclose hclose h
  exact ⟨rfl, (List.cons.inj hrest).2⟩

theorem prefixed_pieceCode : (pieceCode isBoundary).Prefixed := by
  intro left right x y hleft hright h
  change left.render ++ x = right.render ++ y at h
  change left.Proper isBoundary x at hleft
  change right.Proper isBoundary y at hright
  rcases left with c | c | _ | r | text | items <;> rcases right with d | d | _ | s | other | others
  case reference.reference =>
    obtain ⟨rfl, hrest⟩ := Reference.unique hleft hright h
    exact ⟨rfl, hrest⟩
  case single.single =>
    have h : singleQuote :: (text ++ [singleQuote]) ++ x = singleQuote :: (other ++ [singleQuote]) ++ y := h
    simp only [List.cons_append, List.append_assoc, List.nil_append, List.cons.injEq, true_and] at h
    obtain ⟨rfl, hrest⟩ := single_unique hleft hright h
    exact ⟨rfl, hrest⟩
  case double.double =>
    have h : doubleQuote :: (quotedCode.text items ++ [doubleQuote]) ++ x =
      doubleQuote :: (quotedCode.text others ++ [doubleQuote]) ++ y := h
    simp only [List.cons_append, List.append_assoc, List.nil_append, List.cons.injEq, true_and] at h
    obtain ⟨rfl, hrest⟩ := double_unique hleft hright h
    exact ⟨rfl, hrest⟩
  all_goals simp_all [Piece.render, Reference.render, Piece.Proper, isQuoting]

/-! ## Texts -/

/-- A part of a text. -/
inductive Segment
  | separator (c : Nat)
  | word (pieces : List Piece)

def Segment.render (isBoundary : Nat → Bool) : Segment → Text
  | separator c => [c]
  | word pieces => (pieceCode isBoundary).text pieces

/-- The text is at its end, or a separator comes next. -/
def Breaks (isBoundary : Nat → Bool) (text : Text) : Prop := ∀ c ∈ text.head?, isBoundary c = true

/-- A word has a piece, and goes as far as no separator comes. -/
def Segment.Proper (isBoundary : Nat → Bool) : Segment → (after : Text) → Prop
  | separator c, _ => isBoundary c = true
  | word pieces, after =>
    pieces ≠ [] ∧ (pieceCode isBoundary).Spells pieces after ∧ Breaks isBoundary after

def segmentCode (isBoundary : Nat → Bool) : Code Segment :=
  ⟨Segment.render isBoundary, Segment.Proper isBoundary⟩

/-- The segments are a reading of the text. -/
def Reads (isBoundary : Nat → Bool) (segments : List Segment) (text : Text) : Prop :=
  (segmentCode isBoundary).text segments = text ∧ (segmentCode isBoundary).Spells segments []

/-- A piece does not start with a separator. -/
theorem piece_continues (hb : ∀ c, isQuoting c = true → isBoundary c = false) {piece : Piece}
    (h : (pieceCode isBoundary).Proper piece x) :
    ¬ Breaks isBoundary ((pieceCode isBoundary).render piece ++ x) := by
  change piece.Proper isBoundary x at h
  change ¬ Breaks isBoundary (piece.render ++ x)
  have hnot : ∀ {c : Nat} {text : Text}, isBoundary c = false → ¬ Breaks isBoundary (c :: text) := by
    intro c text hc hbreaks
    rw [hbreaks c rfl] at hc
    cases hc
  cases piece with
  | bare c => exact hnot h.2
  | escaped c => exact hnot (hb _ (by decide))
  | continuation => exact hnot (hb _ (by decide))
  | reference r => exact hnot (hb _ (by decide))
  | single text => exact hnot (hb _ (by decide))
  | double items => exact hnot (hb _ (by decide))

theorem prefixed_segmentCode (hb : ∀ c, isQuoting c = true → isBoundary c = false) :
    (segmentCode isBoundary).Prefixed := by
  intro left right x y hleft hright h
  have hmixed : ∀ {c : Nat} {pieces : List Piece} {x y : Text}, isBoundary c = true →
      Segment.Proper isBoundary (.word pieces) x → c :: y ≠ (pieceCode isBoundary).text pieces ++ x := by
    intro c pieces x y hc hword hsame
    obtain ⟨piece, pieces, rfl⟩ := List.exists_cons_of_ne_nil hword.1
    rw [Code.text_cons, List.append_assoc] at hsame
    refine piece_continues hb hword.2.1.1 ?_
    rw [← hsame]
    intro d hd
    obtain rfl := Option.some.inj hd
    exact hc
  cases left with
  | separator c =>
    cases right with
    | separator d =>
      obtain ⟨rfl, hrest⟩ := List.cons.inj h
      exact ⟨rfl, hrest⟩
    | word pieces => exact absurd h (hmixed hleft hright)
  | word pieces =>
    cases right with
    | separator d => exact absurd h.symm (hmixed hright hleft)
    | word others =>
      obtain ⟨rfl, hrest⟩ := Code.unique prefixed_pieceCode (Breaks isBoundary) (piece_continues hb)
        hleft.2.1 hright.2.1 hleft.2.2 hright.2.2 h
      exact ⟨rfl, hrest⟩

/-- A text has at most one reading. -/
theorem reads_unique (hb : ∀ c, isQuoting c = true → isBoundary c = false) {left right : List Segment}
    {text : Text} (hleft : Reads isBoundary left text) (hright : Reads isBoundary right text) :
    left = right := by
  have hsame : (segmentCode isBoundary).text left ++ [] = (segmentCode isBoundary).text right ++ [] := by
    rw [hleft.1, hright.1]
  have hstop : ∀ {segment : Segment} {x : Text}, (segmentCode isBoundary).Proper segment x →
      ¬ (segmentCode isBoundary).render segment ++ x = [] := by
    intro segment x hsegment hnil
    cases segment with
    | separator c => cases hnil
    | word pieces =>
      obtain ⟨piece, pieces, rfl⟩ := List.exists_cons_of_ne_nil hsegment.1
      have hnil : piece.render ++ (pieceCode isBoundary).text pieces ++ x = [] := hnil
      refine piece_continues hb hsegment.2.1.1 ?_
      rw [← List.append_assoc]
      show Breaks isBoundary (piece.render ++ (pieceCode isBoundary).text pieces ++ x)
      rw [hnil]
      intro c hc
      cases hc
  exact (Code.unique (prefixed_segmentCode hb) (fun text => text = []) hstop hleft.2 hright.2 rfl
    rfl hsame).1

/-! ## What is read -/

inductive Quote
  | single
  | double
deriving DecidableEq

/-- What a reader reads at once: how it is written, what it stands for, in which quotes it stands, and the
reference that it is. -/
structure Atom where
  source : Text
  value : Text
  quote : Option Quote
  reference : Option Reference

/-- A unit that stands for itself. -/
def Atom.unit (quote : Option Quote) (c : Nat) : Atom := ⟨[c], [c], quote, none⟩

/-- A quote that opens or closes. -/
def Atom.mark (c : Nat) : Atom := ⟨[c], [], none, none⟩

def Atom.escaped (quote : Option Quote) (c : Nat) : Atom := ⟨[backslash, c], [c], quote, none⟩

def Atom.continuation (quote : Option Quote) : Atom := ⟨[backslash, newline], [], quote, none⟩

def Atom.ofReference (quote : Option Quote) (r : Reference) : Atom := ⟨r.render, r.render, quote, some r⟩

def Quoted.atom : Quoted → Atom
  | plain c => .unit (some .double) c
  | backslash => .unit (some .double) ShellGrammar.backslash
  | escaped c => .escaped (some .double) c
  | continuation => .continuation (some .double)
  | reference r => .ofReference (some .double) r

def Piece.atoms : Piece → List Atom
  | bare c => [.unit none c]
  | escaped c => [.escaped none c]
  | continuation => [.continuation none]
  | reference r => [.ofReference none r]
  | single text => .mark singleQuote :: (text.map (.unit (some .single)) ++ [.mark singleQuote])
  | double items => .mark doubleQuote :: (items.map Quoted.atom ++ [.mark doubleQuote])

def Segment.atoms : Segment → List Atom
  | separator c => [.unit none c]
  | word pieces => pieces.flatMap Piece.atoms

/-- The text that is written. -/
def sourceText (atoms : List Atom) : Text := atoms.flatMap Atom.source

/-- The text behind the removal of the quotes. -/
def valueText (atoms : List Atom) : Text := atoms.flatMap Atom.value

/-- Where the references stand in the text that is written, and where in its value. -/
def references : List Atom → (source value : Nat) → List (Nat × Nat × Reference)
  | [], _, _ => []
  | atom :: atoms, source, value =>
    (atom.reference.map fun r => (source, value, r)).toList ++
      references atoms (source + atom.source.length) (value + atom.value.length)

/-- Where the values of the words start and end. -/
def wordSpans : List Segment → (value : Nat) → List (Nat × Nat)
  | [], _ => []
  | .separator _ :: segments, value => wordSpans segments (value + 1)
  | .word pieces :: segments, value =>
    let stop := value + (valueText (pieces.flatMap Piece.atoms)).length
    (value, stop) :: wordSpans segments stop

@[simp]
theorem sourceText_append (left right : List Atom) :
    sourceText (left ++ right) = sourceText left ++ sourceText right := List.flatMap_append

@[simp]
theorem valueText_append (left right : List Atom) :
    valueText (left ++ right) = valueText left ++ valueText right := List.flatMap_append

@[simp]
theorem sourceText_cons (atom : Atom) (atoms : List Atom) :
    sourceText (atom :: atoms) = atom.source ++ sourceText atoms := rfl

@[simp]
theorem valueText_cons (atom : Atom) (atoms : List Atom) :
    valueText (atom :: atoms) = atom.value ++ valueText atoms := rfl

@[simp]
theorem sourceText_nil : sourceText [] = [] := rfl

@[simp]
theorem valueText_nil : valueText [] = [] := rfl

theorem references_append (left right : List Atom) (source value : Nat) :
    references (left ++ right) source value = references left source value ++
      references right (source + (sourceText left).length) (value + (valueText left).length) := by
  induction left generalizing source value with
  | nil => rfl
  | cons atom left ih =>
    simp only [List.cons_append, references, ih, List.append_assoc, sourceText_cons, valueText_cons,
      List.length_append, Nat.add_assoc]

/-- A reference is listed at the place where it stands. -/
theorem exists_of_mem_references {atoms : List Atom} {source value i j : Nat} {r : Reference}
    (h : (i, j, r) ∈ references atoms source value) :
    ∃ before atom after, atoms = before ++ atom :: after ∧ atom.reference = some r ∧
      i = source + (sourceText before).length ∧ j = value + (valueText before).length := by
  induction atoms generalizing source value with
  | nil => cases h
  | cons atom atoms ih =>
    rcases List.mem_append.mp h with hhead | htail
    · obtain ⟨found, hfound, hsame⟩ := Option.map_eq_some_iff.mp (Option.mem_toList.mp hhead)
      cases hsame
      exact ⟨[], atom, atoms, rfl, hfound, rfl, rfl⟩
    · obtain ⟨before, found, after, rfl, hfound, rfl, rfl⟩ := ih htail
      refine ⟨atom :: before, found, after, rfl, hfound, ?_, ?_⟩
      · rw [sourceText_cons, List.length_append, Nat.add_assoc]
      · rw [valueText_cons, List.length_append, Nat.add_assoc]

theorem sourceText_units (quote : Option Quote) (text : Text) :
    sourceText (text.map (Atom.unit quote)) = text := by
  induction text with
  | nil => rfl
  | cons c text ih => rw [List.map_cons, sourceText_cons, ih]; rfl

theorem sourceText_quoted (items : List Quoted) :
    sourceText (items.map Quoted.atom) = quotedCode.text items := by
  induction items with
  | nil => rfl
  | cons item items ih =>
    rw [List.map_cons, sourceText_cons, ih, Code.text_cons]
    cases item <;> rfl

theorem sourceText_piece (piece : Piece) : sourceText piece.atoms = piece.render := by
  cases piece with
  | single text =>
    simp only [Piece.atoms, sourceText_cons, sourceText_append, sourceText_units]
    rfl
  | double items =>
    simp only [Piece.atoms, sourceText_cons, sourceText_append, sourceText_quoted]
    rfl
  | reference r => exact List.append_nil _
  | _ => rfl

theorem sourceText_pieces (pieces : List Piece) :
    sourceText (pieces.flatMap Piece.atoms) = (pieceCode isBoundary).text pieces := by
  induction pieces with
  | nil => rfl
  | cons piece pieces ih =>
    rw [List.flatMap_cons, sourceText_append, ih, sourceText_piece]
    rfl

theorem sourceText_segments (segments : List Segment) :
    sourceText (segments.flatMap Segment.atoms) = (segmentCode isBoundary).text segments := by
  induction segments with
  | nil => rfl
  | cons segment segments ih =>
    rw [List.flatMap_cons, sourceText_append, ih, Code.text_cons]
    cases segment with
    | separator c => rfl
    | word pieces =>
      rw [Segment.atoms, sourceText_pieces]
      rfl

/-- The references of a reading are names, and none stands between single quotes. -/
theorem reference_of_mem {segments : List Segment} {after : Text}
    (h : (segmentCode isBoundary).Spells segments after) {atom : Atom}
    (hatom : atom ∈ segments.flatMap Segment.atoms) {r : Reference} (hr : atom.reference = some r) :
    ∃ quote, atom = .ofReference quote r ∧ quote ≠ some .single ∧ isName r.name = true := by
  have hquoted : ∀ {items : List Quoted} {after : Text}, quotedCode.Spells items after →
      ∀ item ∈ items, item.atom.reference = some r → item.atom = .ofReference (some .double) r ∧
        isName r.name = true := by
    intro items after hitems item hitem hreference
    induction items with
    | nil => cases hitem
    | cons first items ih =>
      rcases List.mem_cons.mp hitem with rfl | hitem
      · cases item with
        | reference found =>
          obtain rfl := Option.some.inj hreference
          exact ⟨rfl, hitems.1.1⟩
        | _ => cases hreference
      · exact ih hitems.2 hitem
  have hpiece : ∀ {pieces : List Piece} {after : Text}, (pieceCode isBoundary).Spells pieces after →
      atom ∈ pieces.flatMap Piece.atoms →
      ∃ quote, atom = .ofReference quote r ∧ quote ≠ some .single ∧ isName r.name = true := by
    intro pieces after hpieces hmem
    induction pieces with
    | nil => cases hmem
    | cons piece pieces ih =>
      rw [List.flatMap_cons] at hmem
      rcases List.mem_append.mp hmem with hmem | hmem
      · cases piece with
        | reference found =>
          obtain rfl := List.mem_singleton.mp hmem
          obtain rfl := Option.some.inj hr
          exact ⟨none, rfl, by simp, hpieces.1.1⟩
        | single text =>
          simp only [Piece.atoms, List.mem_cons, List.mem_append, List.mem_map, List.not_mem_nil,
            or_false] at hmem
          rcases hmem with rfl | ⟨c, -, rfl⟩ | rfl <;> cases hr
        | double items =>
          simp only [Piece.atoms, List.mem_cons, List.mem_append, List.mem_map, List.not_mem_nil,
            or_false] at hmem
          rcases hmem with rfl | ⟨item, hitem, rfl⟩ | rfl
          · cases hr
          · obtain ⟨hatom, hname⟩ := hquoted hpieces.1 item hitem hr
            exact ⟨some .double, hatom, by simp, hname⟩
          · cases hr
        | _ =>
          obtain rfl := List.mem_singleton.mp hmem
          cases hr
      · exact ih hpieces.2 hmem
  induction segments with
  | nil => cases hatom
  | cons segment segments ih =>
    rw [List.flatMap_cons] at hatom
    rcases List.mem_append.mp hatom with hmem | hmem
    · cases segment with
      | separator c =>
        obtain rfl := List.mem_singleton.mp hmem
        cases hr
      | word pieces => exact hpiece h.1.2.1 hmem
    · exact ih h.2 hmem

/-! ## Reading with an open quote -/

/-- A reader in the quotes `quote` reads an atom before `after`, and is then in the quotes `next`. -/
inductive Step (isBoundary : Nat → Bool) (after : Text) : Option Quote → Atom → (next : Option Quote) → Prop
  | openSingle : Step isBoundary after none (.mark singleQuote) (some .single)
  | closeSingle : Step isBoundary after (some .single) (.mark singleQuote) none
  | single {c : Nat} (h : c ≠ singleQuote) :
    Step isBoundary after (some .single) (.unit (some .single) c) (some .single)
  | openDouble : Step isBoundary after none (.mark doubleQuote) (some .double)
  | closeDouble : Step isBoundary after (some .double) (.mark doubleQuote) none
  | double (item : Quoted) (h : item.Proper after) :
    Step isBoundary after (some .double) item.atom (some .double)
  | piece (piece : Piece) {atom : Atom} (hatom : piece.atoms = [atom])
    (h : piece.Proper isBoundary after) : Step isBoundary after none atom none

/-- The steps of a reader up to `after`. -/
inductive Steps (isBoundary : Nat → Bool) (after : Text) : Option Quote → List Atom → Option Quote → Prop
  | nil (quote : Option Quote) : Steps isBoundary after quote [] quote
  | cons {quote next last : Option Quote} {atom : Atom} {atoms : List Atom}
    (h : Step isBoundary (sourceText atoms ++ after) quote atom next)
    (hrest : Steps isBoundary after next atoms last) : Steps isBoundary after quote (atom :: atoms) last

/-- What a reader in the quotes `quote` reads until no quote is open. -/
def Remains (isBoundary : Nat → Bool) (after : Text) (atoms : List Atom) : Option Quote → Prop
  | none => ∃ pieces : List Piece, atoms = pieces.flatMap Piece.atoms ∧
      (pieceCode isBoundary).Spells pieces after
  | some .single => ∃ (text : Text) (pieces : List Piece),
      atoms = text.map (.unit (some .single)) ++ .mark singleQuote :: pieces.flatMap Piece.atoms ∧
        singleQuote ∉ text ∧ (pieceCode isBoundary).Spells pieces after
  | some .double => ∃ (items : List Quoted) (pieces : List Piece),
      atoms = items.map Quoted.atom ++ .mark doubleQuote :: pieces.flatMap Piece.atoms ∧
        quotedCode.Spells items (doubleQuote :: ((pieceCode isBoundary).text pieces ++ after)) ∧
        (pieceCode isBoundary).Spells pieces after

/-- A reader that ends without an open quote has read pieces. -/
theorem remains_of_steps {after : Text} {quote last : Option Quote} {atoms : List Atom}
    (h : Steps isBoundary after quote atoms last) (hlast : last = none) :
    Remains isBoundary after atoms quote := by
  induction h with
  | nil quote =>
    subst hlast
    exact ⟨[], rfl, trivial⟩
  | cons hstep hrest ih =>
    have hremains := ih hlast
    cases hstep with
    | openSingle =>
      obtain ⟨text, pieces, rfl, htext, hpieces⟩ := hremains
      refine ⟨.single text :: pieces, ?_, htext, hpieces⟩
      simp [Piece.atoms]
    | closeSingle =>
      obtain ⟨pieces, rfl, hpieces⟩ := hremains
      exact ⟨[], pieces, rfl, List.not_mem_nil, hpieces⟩
    | single hc =>
      obtain ⟨text, pieces, rfl, htext, hpieces⟩ := hremains
      refine ⟨_ :: text, pieces, rfl, ?_, hpieces⟩
      exact List.not_mem_cons_of_ne_of_not_mem hc.symm htext
    | openDouble =>
      obtain ⟨items, pieces, rfl, hitems, hpieces⟩ := hremains
      refine ⟨.double items :: pieces, ?_, hitems, hpieces⟩
      simp [Piece.atoms]
    | closeDouble =>
      obtain ⟨pieces, rfl, hpieces⟩ := hremains
      exact ⟨[], pieces, rfl, trivial, hpieces⟩
    | double item hitem =>
      obtain ⟨items, pieces, rfl, hitems, hpieces⟩ := hremains
      refine ⟨item :: items, pieces, rfl, ⟨?_, hitems⟩, hpieces⟩
      rw [sourceText_append, sourceText_cons, sourceText_quoted, sourceText_pieces] at hitem
      rw [List.append_assoc] at hitem
      exact hitem
    | piece piece hatom hpiece =>
      obtain ⟨pieces, rfl, hpieces⟩ := hremains
      refine ⟨piece :: pieces, ?_, ⟨?_, hpieces⟩⟩
      · rw [List.flatMap_cons, hatom]
        rfl
      · rw [sourceText_pieces] at hpiece
        exact hpiece

end Lib.ShellGrammar
