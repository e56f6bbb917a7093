import FipsDropbox.Lib.Utf8

/-!
# Markup

The tokenizer of HTML as a machine over characters, raw text elements and comments
apart, and pages made of fixed markup with values in between. A value that is escaped is
read as itself, and whatever it is the tags and attributes of the page are the same.
-/
namespace FipsDropbox.Markup
open Utf8

structure Tag where
  name : Text
  attrs : List (Text × Text)
  deriving DecidableEq

inductive Token where
  | char (c : Char)
  | startTag (tag : Tag)
  | endTag (name : Text)
  | declaration (t : Text)
  deriving DecidableEq

/-- An attribute; one that the tag has already is dropped. -/
def Tag.withAttr (tag : Tag) (name value : Text) : Tag :=
  if tag.attrs.any fun a => a.1 = name then tag else { tag with attrs := tag.attrs ++ [(name, value)] }

def isDecimalDigit (c : Char) : Bool := '0' ≤ c && c ≤ '9'

def hexDigitValue (c : Char) : Option ℕ :=
  if '0' ≤ c && c ≤ '9' then some (c.toNat - 48)
  else if 'a' ≤ c && c ≤ 'f' then some (c.toNat - 87)
  else if 'A' ≤ c && c ≤ 'F' then some (c.toNat - 55)
  else none

def numberIn (base : ℕ) (digit : Char → Option ℕ) (ds : Text) : Option ℕ :=
  if ds.isEmpty then none else ds.foldlM (fun n c => (digit c).map (base * n + ·)) 0

def charOfNumber (n : ℕ) : Char := if n.isValidChar then Char.ofNat n else Char.ofNat 0xFFFD

/-- Some of the named references. -/
def namedReferences : List (String × Char) :=
  [("lt", '<'), ("gt", '>'), ("amp", '&'), ("quot", '"'), ("apos", '\''), ("nbsp", Char.ofNat 0xA0),
    ("middot", '·'), ("mdash", '—'), ("ndash", '–'), ("hellip", '…'), ("larr", '←'), ("rarr", '→'),
    ("lsquo", '‘'), ("rsquo", '’'), ("ldquo", '“'), ("rdquo", '”')]

/-- What a reference stands for, between its `&` and its `;`. -/
def reference : Text → Option Char
  | '#' :: 'x' :: ds | '#' :: 'X' :: ds => (numberIn 16 hexDigitValue ds).map charOfNumber
  | '#' :: ds => (numberIn 10 (fun c => if isDecimalDigit c then some (c.toNat - 48) else none) ds).map charOfNumber
  | name => (namedReferences.find? fun r => r.1.toList = name).map Prod.snd

/-- What is read where a reference ends; an unknown one stands for itself. -/
def resolved (name : Text) : Text :=
  match reference name with
  | some c => [c]
  | none => '&' :: name ++ [';']

def isLetter (c : Char) : Bool := ('a' ≤ c && c ≤ 'z') || ('A' ≤ c && c ≤ 'Z')

def isReferenceChar (c : Char) : Bool := isLetter c || isDecimalDigit c || c = '#'

def isSpace (c : Char) : Bool := c = '\t' || c = '\n' || c = Char.ofNat 12 || c = '\r' || c = ' '

inductive Quote where
  | double
  | single
  | none
  deriving DecidableEq

inductive State where
  | data
  | dataReference (name : Text)
  | tagOpen
  | endTagOpen
  | tagName (name : Text)
  | endTagName (name : Text)
  /-- After the name of an end tag, up to its end. -/
  | endTagRest (name : Text)
  | beforeAttr (tag : Tag)
  | attrName (tag : Tag) (attr : Text)
  | afterAttrName (tag : Tag) (attr : Text)
  | beforeValue (tag : Tag) (attr : Text)
  | value (tag : Tag) (attr : Text) (quote : Quote) (v : Text)
  | valueReference (tag : Tag) (attr : Text) (quote : Quote) (v name : Text)
  | afterValue (tag : Tag)
  | selfClosing (tag : Tag)
  | declaration (t : Text)
  deriving DecidableEq

abbrev Reading := State × List Token

def chars (t : Text) : List Token := t.map .char

def stepData (c : Char) : Reading :=
  if c = '<' then (.tagOpen, [])
  else if c = '&' then (.dataReference [], [])
  else (.data, [.char c])

def stepBeforeAttr (tag : Tag) (c : Char) : Reading :=
  if isSpace c then (.beforeAttr tag, [])
  else if c = '/' then (.selfClosing tag, [])
  else if c = '>' then (.data, [.startTag tag])
  else (.attrName tag [c.toLower], [])

def stepValue (tag : Tag) (attr : Text) (quote : Quote) (v : Text) (c : Char) : Reading :=
  if c = '&' then (.valueReference tag attr quote v [], [])
  else match quote with
    | .double => if c = '"' then (.afterValue (tag.withAttr attr v), []) else (.value tag attr .double (v ++ [c]), [])
    | .single => if c = '\'' then (.afterValue (tag.withAttr attr v), []) else (.value tag attr .single (v ++ [c]), [])
    | .none =>
        if isSpace c then (.beforeAttr (tag.withAttr attr v), [])
        else if c = '>' then (.data, [.startTag (tag.withAttr attr v)])
        else (.value tag attr .none (v ++ [c]), [])

/-- After the name of an attribute. -/
def stepAfterName (tag : Tag) (attr : Text) (c : Char) (otherwise : State) : Reading :=
  if isSpace c then (.afterAttrName tag attr, [])
  else if c = '/' then (.selfClosing (tag.withAttr attr []), [])
  else if c = '=' then (.beforeValue tag attr, [])
  else if c = '>' then (.data, [.startTag (tag.withAttr attr [])])
  else (otherwise, [])

/-- What was read first, and then a reading. -/
def after (out : List Token) (r : Reading) : Reading := (r.1, out ++ r.2)

def step : State → Char → Reading
  | .data, c => stepData c
  | .dataReference name, c =>
      if c = ';' then (.data, chars (resolved name))
      else if isReferenceChar c then (.dataReference (name ++ [c]), [])
      else after (chars ('&' :: name)) (stepData c)
  | .tagOpen, c =>
      if c = '/' then (.endTagOpen, [])
      else if c = '!' then (.declaration [], [])
      else if isLetter c then (.tagName [c.toLower], [])
      else after [.char '<'] (stepData c)
  | .endTagOpen, c =>
      if isLetter c then (.endTagName [c.toLower], [])
      else if c = '>' then (.data, [])
      else (.declaration [c], [])
  | .tagName name, c =>
      if isSpace c then (.beforeAttr ⟨name, []⟩, [])
      else if c = '/' then (.selfClosing ⟨name, []⟩, [])
      else if c = '>' then (.data, [.startTag ⟨name, []⟩])
      else (.tagName (name ++ [c.toLower]), [])
  | .endTagName name, c =>
      if c = '>' then (.data, [.endTag name])
      else if isSpace c || c = '/' then (.endTagRest name, [])
      else (.endTagName (name ++ [c.toLower]), [])
  | .endTagRest name, c => if c = '>' then (.data, [.endTag name]) else (.endTagRest name, [])
  | .beforeAttr tag, c => stepBeforeAttr tag c
  | .attrName tag attr, c => stepAfterName tag attr c (.attrName tag (attr ++ [c.toLower]))
  | .afterAttrName tag attr, c => stepAfterName tag attr c (.attrName (tag.withAttr attr []) [c.toLower])
  | .beforeValue tag attr, c =>
      if isSpace c then (.beforeValue tag attr, [])
      else if c = '"' then (.value tag attr .double [], [])
      else if c = '\'' then (.value tag attr .single [], [])
      else if c = '>' then (.data, [.startTag (tag.withAttr attr [])])
      else stepValue tag attr .none [] c
  | .value tag attr quote v, c => stepValue tag attr quote v c
  | .valueReference tag attr quote v name, c =>
      if c = ';' then (.value tag attr quote (v ++ resolved name), [])
      else if isReferenceChar c then (.valueReference tag attr quote v (name ++ [c]), [])
      else stepValue tag attr quote (v ++ '&' :: name) c
  | .afterValue tag, c => stepBeforeAttr tag c
  | .selfClosing tag, c => if c = '>' then (.data, [.startTag tag]) else stepBeforeAttr tag c
  | .declaration t, c => if c = '>' then (.data, [.declaration t]) else (.declaration (t ++ [c]), [])

def run : State → Text → Reading
  | s, [] => (s, [])
  | s, c :: t => after (step s c).2 (run (step s c).1 t)

@[simp] theorem run_nil (s : State) : run s [] = (s, []) := rfl

theorem after_nil (r : Reading) : after [] r = r := rfl

theorem after_after (a b : List Token) (r : Reading) : after a (after b r) = after (a ++ b) r := by
  simp only [after, List.append_assoc]

theorem run_append (s : State) (t u : Text) : run s (t ++ u) = after (run s t).2 (run (run s t).1 u) := by
  induction t generalizing s with
  | nil => rfl
  | cons c t ih =>
      rw [List.cons_append, run, ih, after_after]
      rfl

/-- Markup as it stands, or a value. -/
inductive Piece where
  | markup (t : Text)
  | value (t : Text)

def Piece.render (escape : Char → Text) : Piece → Text
  | .markup t => t
  | .value t => t.flatMap escape

def render (escape : Char → Text) (ps : List Piece) : Text := ps.flatMap (Piece.render escape)

/-- A value as it is meant: text between tags, or a part of an attribute in double quotes. It
has no place elsewhere. -/
def fill : State → Text → Option Reading
  | .data, t => some (.data, chars t)
  | .value tag attr .double v, t => some (.value tag attr .double (v ++ t), [])
  | _, _ => none

/-- A page as it is meant. -/
def readPieces : State → List Piece → Option Reading
  | s, [] => some (s, [])
  | s, .markup t :: ps => (readPieces (run s t).1 ps).map (after (run s t).2)
  | s, .value t :: ps => (fill s t).bind fun r => (readPieces r.1 ps).map (after r.2)

/-- A character is written as itself, or by a reference that stands for it. -/
def Escapes (escape : Char → Text) : Prop :=
  ∀ c, (escape c = [c] ∧ c ≠ '<' ∧ c ≠ '&' ∧ c ≠ '"') ∨
    ∃ name, escape c = '&' :: name ++ [';'] ∧ (∀ d ∈ name, isReferenceChar d = true) ∧ reference name = some c

section
variable {escape : Char → Text}

theorem referenceChar_ne {d : Char} (h : isReferenceChar d = true) : d ≠ ';' := by
  rintro rfl
  cases h

theorem run_dataReference {name : Text} (h : ∀ d ∈ name, isReferenceChar d = true) (before : Text) :
    run (.dataReference before) (name ++ [';']) = (.data, chars (resolved (before ++ name))) := by
  induction name generalizing before with
  | nil =>
      rw [List.append_nil]
      exact Prod.ext rfl (List.append_nil _)
  | cons d name ih =>
      obtain ⟨hd, hname⟩ := List.forall_mem_cons.mp h
      have hstep : step (.dataReference before) d = (.dataReference (before ++ [d]), []) := by
        rw [step, if_neg (referenceChar_ne hd), if_pos hd]
      rw [List.cons_append, run, hstep, after_nil, ih hname, List.append_assoc]
      rfl

theorem run_valueReference {name : Text} (h : ∀ d ∈ name, isReferenceChar d = true) (tag : Tag) (attr v before : Text) :
    run (.valueReference tag attr .double v before) (name ++ [';']) =
      (.value tag attr .double (v ++ resolved (before ++ name)), []) := by
  induction name generalizing before with
  | nil =>
      rw [List.append_nil]
      rfl
  | cons d name ih =>
      obtain ⟨hd, hname⟩ := List.forall_mem_cons.mp h
      have hstep : step (.valueReference tag attr .double v before) d =
          (.valueReference tag attr .double v (before ++ [d]), []) := by
        rw [step, if_neg (referenceChar_ne hd), if_pos hd]
      rw [List.cons_append, run, hstep, after_nil, ih hname, List.append_assoc]
      rfl

theorem fill_cases {s : State} {t : Text} {r : Reading} (h : fill s t = some r) :
    (s = .data ∧ r = (.data, chars t)) ∨
      ∃ tag attr v, s = .value tag attr .double v ∧ r = (.value tag attr .double (v ++ t), []) := by
  unfold fill at h
  split at h
  · exact .inl ⟨rfl, (Option.some.inj h).symm⟩
  · exact .inr ⟨_, _, _, rfl, (Option.some.inj h).symm⟩
  · cases h

/-- An escaped character is read as that character. -/
theorem run_escape_data (hE : Escapes escape) (c : Char) : run .data (escape c) = (.data, [.char c]) := by
  rcases hE c with ⟨hc, hlt, hamp, -⟩ | ⟨name, hc, hname, href⟩
  · rw [hc, run, step, stepData, if_neg hlt, if_neg hamp]
    rfl
  · have hresolved : resolved name = [c] := by rw [resolved, href]
    have hrun := run_dataReference hname []
    rw [List.nil_append, hresolved] at hrun
    rw [hc]
    exact hrun

theorem run_escape_value (hE : Escapes escape) (tag : Tag) (attr v : Text) (c : Char) :
    run (.value tag attr .double v) (escape c) = (.value tag attr .double (v ++ [c]), []) := by
  rcases hE c with ⟨hc, -, hamp, hquote⟩ | ⟨name, hc, hname, href⟩
  · have hstep : stepValue tag attr .double v c = (.value tag attr .double (v ++ [c]), []) := by
      rw [stepValue, if_neg hamp]
      exact if_neg hquote
    rw [hc, run, step, hstep]
    rfl
  · have hresolved : resolved name = [c] := by rw [resolved, href]
    have hrun := run_valueReference hname tag attr v []
    rw [List.nil_append, hresolved] at hrun
    rw [hc]
    exact hrun

/-- An escaped value is read as it is meant. -/
theorem run_fill (hE : Escapes escape) {s : State} {t : Text} {r : Reading} (h : fill s t = some r) :
    run s (t.flatMap escape) = r := by
  rcases fill_cases h with ⟨rfl, rfl⟩ | ⟨tag, attr, v, rfl, rfl⟩
  · clear h
    induction t with
    | nil => rfl
    | cons c t ih =>
        rw [List.flatMap_cons, run_append, run_escape_data hE, ih]
        rfl
  · clear h
    induction t generalizing v with
    | nil => rw [List.append_nil]; rfl
    | cons c t ih =>
        rw [List.flatMap_cons, run_append, run_escape_value hE, ih, List.append_assoc]
        rfl

/-- A page whose values have a place is read as it is meant. -/
theorem run_render (hE : Escapes escape) {s : State} {ps : List Piece} {r : Reading} (h : readPieces s ps = some r) :
    run s (render escape ps) = r := by
  induction ps generalizing s r with
  | nil => exact Option.some.inj h
  | cons p ps ih =>
      rw [render, List.flatMap_cons, run_append]
      cases p with
      | markup t =>
          obtain ⟨r1, hrest, rfl⟩ := Option.map_eq_some_iff.mp h
          exact congrArg (after _) (ih hrest)
      | value t =>
          obtain ⟨r1, hfill, hmap⟩ := Option.bind_eq_some_iff.mp h
          obtain ⟨r2, hrest, rfl⟩ := Option.map_eq_some_iff.mp hmap
          rw [Piece.render, run_fill hE hfill]
          exact congrArg (after _) (ih hrest)

end

theorem readPieces_append {s : State} {ps qs : List Piece} {r r' : Reading} (h : readPieces s ps = some r)
    (h' : readPieces r.1 qs = some r') : readPieces s (ps ++ qs) = some (after r.2 r') := by
  induction ps generalizing s r with
  | nil =>
      obtain rfl := Option.some.inj h
      rw [List.nil_append, h']
      rfl
  | cons p ps ih =>
      cases p with
      | markup t =>
          obtain ⟨r1, hrest, rfl⟩ := Option.map_eq_some_iff.mp h
          rw [List.cons_append, readPieces, ih hrest h', Option.map_some, after_after]
          rfl
      | value t =>
          obtain ⟨r1, hfill, hmap⟩ := Option.bind_eq_some_iff.mp h
          obtain ⟨r2, hrest, rfl⟩ := Option.map_eq_some_iff.mp hmap
          rw [List.cons_append, readPieces, hfill, Option.bind_some, ih hrest h', Option.map_some, after_after]
          rfl

/-! ## What values cannot change -/

def Tag.shape (tag : Tag) : Tag := ⟨tag.name, tag.attrs.map fun a => (a.1, [])⟩

/-- A token without values; characters are values. -/
def Token.shape : Token → Option Token
  | .char _ => none
  | .startTag tag => some (.startTag tag.shape)
  | t => some t

def shapes (ts : List Token) : List Token := ts.filterMap Token.shape

/-- The machine without the values that it holds. -/
def State.shape : State → State
  | .beforeAttr tag => .beforeAttr tag.shape
  | .attrName tag attr => .attrName tag.shape attr
  | .afterAttrName tag attr => .afterAttrName tag.shape attr
  | .beforeValue tag attr => .beforeValue tag.shape attr
  | .value tag attr quote _ => .value tag.shape attr quote []
  | .valueReference tag attr quote _ name => .valueReference tag.shape attr quote [] name
  | .afterValue tag => .afterValue tag.shape
  | .selfClosing tag => .selfClosing tag.shape
  | s => s

/-- Readings that differ in values only. -/
def Alike (r r' : Reading) : Prop := r.1.shape = r'.1.shape ∧ shapes r.2 = shapes r'.2

theorem Alike.symm {r r' : Reading} (h : Alike r r') : Alike r' r := ⟨h.1.symm, h.2.symm⟩

theorem Alike.trans {r r' r'' : Reading} (h : Alike r r') (h' : Alike r' r'') : Alike r r'' :=
  ⟨h.1.trans h'.1, h.2.trans h'.2⟩

theorem shapes_append (a b : List Token) : shapes (a ++ b) = shapes a ++ shapes b := List.filterMap_append

theorem shapes_chars (t : Text) : shapes (chars t) = [] := by
  induction t with
  | nil => rfl
  | cons c t ih => exact ih

theorem Alike.after {r r' : Reading} {a b : List Token} (hout : shapes a = shapes b) (h : Alike r r') :
    Alike (after a r) (after b r') := by
  refine ⟨h.1, ?_⟩
  rw [Markup.after, Markup.after, shapes_append, shapes_append, hout, h.2]

@[simp] theorem Tag.shape_shape (tag : Tag) : tag.shape.shape = tag.shape := by
  simp [Tag.shape]

theorem Tag.shape_withAttr {tag tag' : Tag} (h : tag.shape = tag'.shape) (attr v v' : Text) :
    (tag.withAttr attr v).shape = (tag'.withAttr attr v').shape := by
  have hname : tag.shape.name = tag'.shape.name := congrArg Tag.name h
  have hattrs : tag.attrs.map Prod.fst = tag'.attrs.map Prod.fst := by
    have h' := congrArg (fun t => t.attrs.map Prod.fst) h
    simpa only [Tag.shape, List.map_map, Function.comp_def] using h'
  have hany : (tag.attrs.any fun a => a.1 = attr) = (tag'.attrs.any fun a => a.1 = attr) := by
    have h' := congrArg (fun l => l.any fun a => a = attr) hattrs
    simpa [List.any_map, Function.comp_def] using h'
  unfold Tag.withAttr
  rw [hany]
  split_ifs
  · exact h
  · have hmap : tag.shape.attrs = tag'.shape.attrs := congrArg Tag.attrs h
    simp only [Tag.shape] at hname hmap ⊢
    rw [List.map_append, List.map_append, hname, hmap]
    rfl

section
variable {tag tag' : Tag} (htag : tag.shape = tag'.shape)
include htag

theorem alike_startTag : Alike (.data, [.startTag tag]) (.data, [.startTag tag']) := by
  refine ⟨rfl, ?_⟩
  simp only [shapes, List.filterMap_cons, Token.shape, htag]

theorem stepBeforeAttr_alike (c : Char) : Alike (stepBeforeAttr tag c) (stepBeforeAttr tag' c) := by
  unfold stepBeforeAttr
  split_ifs
  · exact ⟨congrArg State.beforeAttr htag, rfl⟩
  · exact ⟨congrArg State.selfClosing htag, rfl⟩
  · exact alike_startTag htag
  · exact ⟨congrArg (State.attrName · _) htag, rfl⟩

theorem stepValue_alike (attr : Text) (quote : Quote) (v v' : Text) (c : Char) :
    Alike (stepValue tag attr quote v c) (stepValue tag' attr quote v' c) := by
  have hwith := Tag.shape_withAttr htag attr v v'
  have hvalue : ∀ u u', Alike (.value tag attr quote u, []) (.value tag' attr quote u', []) :=
    fun _ _ => ⟨congrArg (State.value · attr quote []) htag, rfl⟩
  have href : Alike (.valueReference tag attr quote v [], []) (.valueReference tag' attr quote v' [], []) :=
    ⟨congrArg (State.valueReference · attr quote [] []) htag, rfl⟩
  cases quote with
  | double =>
      simp only [stepValue]
      split_ifs
      · exact href
      · exact ⟨congrArg State.afterValue hwith, rfl⟩
      · exact hvalue _ _
  | single =>
      simp only [stepValue]
      split_ifs
      · exact href
      · exact ⟨congrArg State.afterValue hwith, rfl⟩
      · exact hvalue _ _
  | none =>
      simp only [stepValue]
      split_ifs
      · exact href
      · exact ⟨congrArg State.beforeAttr hwith, rfl⟩
      · exact alike_startTag hwith
      · exact hvalue _ _

theorem stepAfterName_alike (attr : Text) (c : Char) {next next' : State} (hnext : next.shape = next'.shape) :
    Alike (stepAfterName tag attr c next) (stepAfterName tag' attr c next') := by
  have hwith := Tag.shape_withAttr htag attr [] []
  unfold stepAfterName
  split_ifs
  · exact ⟨congrArg (State.afterAttrName · attr) htag, rfl⟩
  · exact ⟨congrArg State.selfClosing hwith, rfl⟩
  · exact ⟨congrArg (State.beforeValue · attr) htag, rfl⟩
  · exact alike_startTag hwith
  · exact ⟨hnext, rfl⟩

end

/-- The step lemma: the machine does not look at values. -/
theorem step_shape (s : State) (c : Char) : Alike (step s c) (step s.shape c) := by
  have htag : ∀ tag : Tag, tag.shape = tag.shape.shape := fun tag => tag.shape_shape.symm
  cases s with
  | data | dataReference | tagOpen | endTagOpen | tagName | endTagName | endTagRest | declaration => exact ⟨rfl, rfl⟩
  | beforeAttr tag => exact stepBeforeAttr_alike (htag tag) c
  | attrName tag attr => exact stepAfterName_alike (htag tag) attr c (congrArg (State.attrName · _) (htag tag))
  | afterAttrName tag attr =>
      exact stepAfterName_alike (htag tag) attr c
        (congrArg (State.attrName · _) (Tag.shape_withAttr (htag tag) attr [] []))
  | beforeValue tag attr =>
      simp only [step, State.shape]
      split_ifs
      · exact ⟨congrArg (State.beforeValue · attr) (htag tag), rfl⟩
      · exact ⟨congrArg (State.value · attr .double []) (htag tag), rfl⟩
      · exact ⟨congrArg (State.value · attr .single []) (htag tag), rfl⟩
      · exact alike_startTag (Tag.shape_withAttr (htag tag) attr [] [])
      · exact stepValue_alike (htag tag) attr .none [] [] c
  | value tag attr quote v => exact stepValue_alike (htag tag) attr quote v [] c
  | valueReference tag attr quote v name =>
      simp only [step, State.shape]
      split_ifs
      · exact ⟨congrArg (State.value · attr quote []) (htag tag), rfl⟩
      · exact ⟨congrArg (State.valueReference · attr quote [] _) (htag tag), rfl⟩
      · exact stepValue_alike (htag tag) attr quote _ _ c
  | afterValue tag => exact stepBeforeAttr_alike (htag tag) c
  | selfClosing tag =>
      simp only [step, State.shape]
      split_ifs
      · exact alike_startTag (htag tag)
      · exact stepBeforeAttr_alike (htag tag) c

theorem step_alike {s s' : State} (h : s.shape = s'.shape) (c : Char) : Alike (step s c) (step s' c) := by
  have hs := step_shape s c
  rw [h] at hs
  exact hs.trans (step_shape s' c).symm

theorem run_alike {s s' : State} (h : s.shape = s'.shape) (t : Text) : Alike (run s t) (run s' t) := by
  induction t generalizing s s' with
  | nil => exact ⟨h, rfl⟩
  | cons c t ih =>
      have hstep := step_alike h c
      exact (ih hstep.1).after hstep.2

/-- The page without its values. -/
def Piece.blank : Piece → Piece
  | .markup t => .markup t
  | .value _ => .value []

theorem State.of_shape_data {s : State} (h : s.shape = .data) : s = .data := by
  cases s with
  | data => rfl
  | _ => cases h

theorem State.of_shape_value {s : State} {tag : Tag} {attr v : Text} {quote : Quote}
    (h : s.shape = .value tag attr quote v) : ∃ tag' v', s = .value tag' attr quote v' ∧ tag'.shape = tag := by
  cases s with
  | value tag' attr' quote' v' =>
      obtain ⟨htag, rfl, rfl, -⟩ := State.value.inj h
      exact ⟨tag', v', rfl, htag⟩
  | _ => cases h

theorem fill_alike {s s' : State} (h : s.shape = s'.shape) {t : Text} {r : Reading} (hfill : fill s t = some r)
    (u : Text) : ∃ r', fill s' u = some r' ∧ Alike r r' := by
  rcases fill_cases hfill with ⟨rfl, rfl⟩ | ⟨tag, attr, v, rfl, rfl⟩
  · obtain rfl := State.of_shape_data h.symm
    exact ⟨_, rfl, rfl, (shapes_chars t).trans (shapes_chars u).symm⟩
  · obtain ⟨tag', v', rfl, htag⟩ := State.of_shape_value h.symm
    exact ⟨_, rfl, congrArg (State.value · attr .double []) htag.symm, rfl⟩

/-- Two pages with the same markup and values in the same places are read alike. -/
theorem readPieces_alike {s s' : State} (h : s.shape = s'.shape) {ps qs : List Piece}
    (hsame : ps.map Piece.blank = qs.map Piece.blank) {r : Reading} (hread : readPieces s ps = some r) :
    ∃ r', readPieces s' qs = some r' ∧ Alike r r' := by
  induction ps generalizing s s' qs r with
  | nil =>
      obtain rfl := Option.some.inj hread
      obtain rfl := List.map_eq_nil_iff.mp hsame.symm
      exact ⟨_, rfl, h, rfl⟩
  | cons p ps ih =>
      obtain ⟨q, qs, rfl, hpiece, hrest⟩ := List.map_eq_cons_iff.mp hsame.symm
      cases p with
      | markup t =>
          cases q with
          | markup u =>
              obtain rfl := Piece.markup.inj hpiece
              obtain ⟨r1, htail, rfl⟩ := Option.map_eq_some_iff.mp hread
              have hrun := run_alike h u
              obtain ⟨r2, htail', halike⟩ := ih hrun.1 hrest.symm htail
              exact ⟨_, Option.map_eq_some_iff.mpr ⟨r2, htail', rfl⟩, halike.after hrun.2⟩
          | value u => cases hpiece
      | value t =>
          cases q with
          | markup u => cases hpiece
          | value u =>
              obtain ⟨r1, hfill, hmap⟩ := Option.bind_eq_some_iff.mp hread
              obtain ⟨r2, htail, rfl⟩ := Option.map_eq_some_iff.mp hmap
              obtain ⟨r1', hfill', hone⟩ := fill_alike h hfill u
              obtain ⟨r2', htail', halike⟩ := ih hone.1 hrest.symm htail
              exact ⟨_, Option.bind_eq_some_iff.mpr ⟨r1', hfill', Option.map_eq_some_iff.mpr ⟨r2', htail', rfl⟩⟩,
                halike.after hone.2⟩

/-- Whatever the values are, the tags and attributes of the page are the same. -/
theorem shapes_render {escape : Char → Text} (hE : Escapes escape) {s : State} {ps qs : List Piece}
    (hsame : ps.map Piece.blank = qs.map Piece.blank) {r : Reading} (h : readPieces s ps = some r) :
    shapes (run s (render escape ps)).2 = shapes (run s (render escape qs)).2 := by
  obtain ⟨r', h', halike⟩ := readPieces_alike rfl hsame h
  rw [run_render hE h, run_render hE h']
  exact halike.2

inductive Method where
  | get
  | post
  deriving DecidableEq

/-- Where a link or a form leads. -/
structure Target where
  method : Method
  url : Text
  deriving DecidableEq

def Tag.attr (tag : Tag) (name : String) : Option Text := (tag.attrs.find? fun a => a.1 = name.toList).map Prod.snd

def Token.target : Token → Option Target
  | .startTag tag =>
      if tag.name = "a".toList then (tag.attr "href").map (⟨.get, ·⟩)
      else if tag.name = "form".toList then
        (tag.attr "action").map (⟨if tag.attr "method" = some "post".toList then .post else .get, ·⟩)
      else none
  | _ => none

def targets (ts : List Token) : List Target := ts.filterMap Token.target

theorem targets_append (a b : List Token) : targets (a ++ b) = targets a ++ targets b := List.filterMap_append

theorem targets_chars (t : Text) : targets (chars t) = [] := by
  induction t with
  | nil => rfl
  | cons c t ih => exact ih

/-- The pieces are read from one state to another, their values have places, and these are
their targets. -/
def Spans (s : State) (ps : List Piece) (s' : State) (ts : List Target) : Prop :=
  ∃ out, readPieces s ps = some (s', out) ∧ targets out = ts

section
variable {s s' s'' : State} {ps qs : List Piece} {ts us : List Target}

theorem Spans.nil (s : State) : Spans s [] s [] := ⟨[], rfl, rfl⟩

theorem Spans.append (h : Spans s ps s' ts) (h' : Spans s' qs s'' us) : Spans s (ps ++ qs) s'' (ts ++ us) := by
  obtain ⟨out, hread, rfl⟩ := h
  obtain ⟨out', hread', rfl⟩ := h'
  exact ⟨_, readPieces_append hread hread', targets_append out out'⟩

theorem spans_flatMap {α : Type} {f : α → List Piece} {g : α → List Target} (h : ∀ a, Spans s (f a) s (g a))
    (l : List α) : Spans s (l.flatMap f) s (l.flatMap g) := by
  induction l with
  | nil => exact .nil s
  | cons a l ih => exact (h a).append ih

theorem spans_markup {t : Text} (hstate : (run s t).1 = s') (htargets : targets (run s t).2 = ts) :
    Spans s [.markup t] s' ts := by
  refine ⟨(run s t).2, ?_, htargets⟩
  rw [readPieces, readPieces, Option.map_some, after, List.append_nil, hstate]

theorem spans_value (t : Text) : Spans .data [.value t] .data [] := by
  refine ⟨chars t, ?_, targets_chars t⟩
  rw [readPieces, fill, Option.bind_some, readPieces, Option.map_some, after, List.append_nil]

theorem spans_attribute (tag : Tag) (attr v t : Text) :
    Spans (.value tag attr .double v) [.value t] (.value tag attr .double (v ++ t)) [] := ⟨[], rfl, rfl⟩

end

/-- Characters of a name that is in lower case. -/
def isNameChar (c : Char) : Bool := !isSpace c && c ≠ '/' && c ≠ '>' && c ≠ '=' && c.toLower = c

def isValueChar (c : Char) : Bool := c ≠ '&' && c ≠ '"'

section
variable {tag : Tag} {attr v name w : Text}

theorem run_value_plain {t : Text} (h : ∀ c ∈ t, isValueChar c = true) (v rest : Text) :
    run (.value tag attr .double v) (t ++ rest) = run (.value tag attr .double (v ++ t)) rest := by
  induction t generalizing v with
  | nil => rw [List.nil_append, List.append_nil]
  | cons c t ih =>
      obtain ⟨hc, ht⟩ := List.forall_mem_cons.mp h
      simp only [isValueChar, Bool.and_eq_true, decide_eq_true_eq] at hc
      have hstep : step (.value tag attr .double v) c = (.value tag attr .double (v ++ [c]), []) := by
        rw [step, stepValue, if_neg hc.1]
        exact if_neg hc.2
      rw [List.cons_append, run, hstep, after_nil, ih ht, List.append_assoc]
      rfl

theorem run_attrName {t : Text} (h : ∀ c ∈ t, isNameChar c = true) (name rest : Text) :
    run (.attrName tag name) (t ++ rest) = run (.attrName tag (name ++ t)) rest := by
  induction t generalizing name with
  | nil => rw [List.nil_append, List.append_nil]
  | cons c t ih =>
      obtain ⟨hc, ht⟩ := List.forall_mem_cons.mp h
      simp only [isNameChar, Bool.and_eq_true, Bool.not_eq_true', decide_eq_true_eq] at hc
      obtain ⟨⟨⟨⟨hspace, hslash⟩, hgt⟩, heq⟩, hlower⟩ := hc
      have hstep : step (.attrName tag name) c = (.attrName tag (name ++ [c]), []) := by
        rw [step, stepAfterName, hspace, if_neg Bool.false_ne_true, if_neg hslash, if_neg heq, if_neg hgt, hlower]
      rw [List.cons_append, run, hstep, after_nil, ih ht, List.append_assoc]
      rfl

theorem run_close (tag : Tag) (attr v rest : Text) :
    run (.value tag attr .double v) ('"' :: '>' :: rest) =
      after [.startTag (tag.withAttr attr v)] (run .data rest) := rfl

theorem run_next {c : Char} (hname : ∀ d ∈ c :: name, isNameChar d = true) (hw : ∀ d ∈ w, isValueChar d = true)
    (tag : Tag) (attr v rest : Text) :
    run (.value tag attr .double v) ('"' :: ' ' :: c :: name ++ '=' :: '"' :: w ++ rest) =
      run (.value (tag.withAttr attr v) (c :: name) .double w) rest := by
  obtain ⟨hc, hrest⟩ := List.forall_mem_cons.mp hname
  simp only [isNameChar, Bool.and_eq_true, Bool.not_eq_true', decide_eq_true_eq] at hc
  obtain ⟨⟨⟨⟨hspace, hslash⟩, hgt⟩, -⟩, hlower⟩ := hc
  have hstep : step (.beforeAttr (tag.withAttr attr v)) c = (.attrName (tag.withAttr attr v) [c], []) := by
    rw [step, stepBeforeAttr, hspace, if_neg Bool.false_ne_true, if_neg hslash, if_neg hgt, hlower]
  have hopen : run (.value tag attr .double v) ('"' :: ' ' :: c :: (name ++ ('=' :: '"' :: (w ++ rest)))) =
      run (.attrName (tag.withAttr attr v) [c]) (name ++ ('=' :: '"' :: (w ++ rest))) := by
    change after [] (after [] (after (step (.beforeAttr (tag.withAttr attr v)) c).2
      (run (step (.beforeAttr (tag.withAttr attr v)) c).1 _))) = _
    rw [hstep]
    rfl
  simp only [List.cons_append, List.append_assoc]
  rw [hopen, run_attrName hrest]
  exact run_value_plain hw [] rest

theorem run_close_next {c : Char} {closing : Text} (hclosing : ∀ d ∈ closing, isValueChar d = true)
    (hname : ∀ d ∈ c :: name, isNameChar d = true) (hw : ∀ d ∈ w, isValueChar d = true) (tag : Tag)
    (attr v rest : Text) :
    run (.value tag attr .double v) (closing ++ ('"' :: ' ' :: c :: name ++ '=' :: '"' :: w ++ '"' :: '>' :: rest)) =
      after [.startTag ((tag.withAttr attr (v ++ closing)).withAttr (c :: name) w)] (run .data rest) := by
  rw [run_value_plain hclosing, run_next hname hw, run_close]

/-- Markup that opens the value of an attribute, the value, and markup that closes its tag. -/
theorem spans_hole {t u rest : Text} {w : Text} {ts us : List Target} {f : Text → Tag}
    (hopen : (run .data t).1 = .value tag attr .double w ∧ targets (run .data t).2 = ts)
    (hclose : ∀ x, run (.value tag attr .double x) u = after [.startTag (f x)] (run .data rest))
    (hrest : (run .data rest).1 = .data ∧ targets (run .data rest).2 = us) (v : Text) :
    Spans .data [.markup t, .value v, .markup u] .data (ts ++ (targets [.startTag (f (w ++ v))] ++ us)) := by
  have hlast : Spans (.value tag attr .double (w ++ v)) [.markup u] .data (targets [.startTag (f (w ++ v))] ++ us) := by
    refine spans_markup ?_ ?_
    · rw [hclose]
      exact hrest.1
    · rw [hclose, after, targets_append, hrest.2]
  exact (spans_markup hopen.1 hopen.2).append ((spans_attribute tag attr w v).append hlast)

end
end FipsDropbox.Markup
