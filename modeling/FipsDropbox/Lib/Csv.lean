import FipsDropbox.Lib.Json

/-!
# Comma-separated values

The reader of RFC 4180 as a machine over characters. A field is plain, without commas,
quotes and line breaks, or it is in quotes, where a doubled quote stands for one. A line
ends with CRLF or with LF alone.
-/
namespace FipsDropbox.Csv
open Utf8 Json

abbrev Record := List Text

/-- Lines that are complete, then the fields that are. -/
inductive State where
  | start (lines : List Record) (fields : Record)
  | plain (lines : List Record) (fields : Record) (field : Text)
  | quoted (lines : List Record) (fields : Record) (field : Text)
  /-- After a quote in a quoted field: its end, or the first of two. -/
  | closed (lines : List Record) (fields : Record) (field : Text)
  | carriageReturn (lines : List Record) (fields : Record)
  | failed

def endField (lines : List Record) (fields : Record) (field : Text) (c : Char) (otherwise : State) : State :=
  if c = ',' then .start lines (fields ++ [field])
  else if c = '\n' then .start (lines ++ [fields ++ [field]]) []
  else if c = '\r' then .carriageReturn lines (fields ++ [field])
  else otherwise

def step : State → Char → State
  | .start lines fields, c =>
      if c = quote then .quoted lines fields [] else endField lines fields [] c (.plain lines fields [c])
  | .plain lines fields field, c =>
      if c = quote then .failed else endField lines fields field c (.plain lines fields (field ++ [c]))
  | .quoted lines fields field, c =>
      if c = quote then .closed lines fields field else .quoted lines fields (field ++ [c])
  | .closed lines fields field, c =>
      if c = quote then .quoted lines fields (field ++ [c]) else endField lines fields field c .failed
  | .carriageReturn lines fields, c => if c = '\n' then .start (lines ++ [fields]) [] else .failed
  | .failed, _ => .failed

/-- The last line need not be terminated. -/
def finish : State → Option (List Record)
  | .start lines [] => some lines
  | .start lines fields => some (lines ++ [fields ++ [[]]])
  | .plain lines fields field | .closed lines fields field => some (lines ++ [fields ++ [field]])
  | .quoted .. | .carriageReturn .. | .failed => none

def read (t : Text) : Option (List Record) := finish (t.foldl step (.start [] []))

def isPlain (c : Char) : Bool := !(c = ',' || c = quote || c = '\n' || c = '\r')

def double (s : Text) : Text := s.flatMap fun c => if c = quote then [c, c] else [c]

/-- The spellings of a field. -/
inductive Spells : Text → Text → Prop
  | plain {s : Text} (h : ∀ c ∈ s, isPlain c = true) : Spells s s
  | quoted (s : Text) : Spells s (quote :: (double s ++ [quote]))

theorem step_plain {c : Char} (h : isPlain c = true) (lines : List Record) (fields : Record) :
    step (.start lines fields) c = .plain lines fields [c] ∧
      ∀ field, step (.plain lines fields field) c = .plain lines fields (field ++ [c]) := by
  simp only [isPlain, Bool.not_eq_true', Bool.or_eq_false_iff, decide_eq_false_iff_not] at h
  obtain ⟨⟨⟨hcomma, hquote⟩, hlf⟩, hcr⟩ := h
  simp [step, endField, hcomma, hquote, hlf, hcr]

theorem foldl_plain {s : Text} (h : ∀ c ∈ s, isPlain c = true) (lines : List Record) (fields : Record)
    (field : Text) : s.foldl step (.plain lines fields field) = .plain lines fields (field ++ s) := by
  induction s generalizing field with
  | nil => rw [List.foldl_nil, List.append_nil]
  | cons c s ih =>
      rw [List.foldl_cons, (step_plain (h c List.mem_cons_self) lines fields).2 field,
        ih fun d hd => h d (List.mem_cons_of_mem c hd), List.append_assoc, List.singleton_append]

theorem foldl_double (s : Text) (lines : List Record) (fields : Record) (field : Text) :
    (double s).foldl step (.quoted lines fields field) = .quoted lines fields (field ++ s) := by
  induction s generalizing field with
  | nil => rw [double, List.flatMap_nil, List.foldl_nil, List.append_nil]
  | cons c s ih =>
      rw [double, List.flatMap_cons, List.foldl_append]
      have hchar : (if c = quote then [c, c] else [c]).foldl step (.quoted lines fields field) =
          .quoted lines fields (field ++ [c]) := by
        split_ifs with hc <;> simp [step, hc]
      rw [hchar]
      exact (ih (field ++ [c])).trans (by rw [List.append_assoc, List.singleton_append])

/-- A spelled field is read to its end, whichever way it is ended. -/
theorem foldl_field {s t : Text} (h : Spells s t) (lines : List Record) (fields : Record) :
    (t ++ [',']).foldl step (.start lines fields) = .start lines (fields ++ [s]) ∧
      (t ++ ['\n']).foldl step (.start lines fields) = .start (lines ++ [fields ++ [s]]) [] := by
  cases h with
  | plain h =>
      cases s with
      | nil => exact ⟨rfl, rfl⟩
      | cons c s =>
          have hbody : (c :: s).foldl step (.start lines fields) = .plain lines fields (c :: s) := by
            rw [List.foldl_cons, (step_plain (h c List.mem_cons_self) lines fields).1,
              foldl_plain fun d hd => h d (List.mem_cons_of_mem c hd), List.singleton_append]
          rw [List.foldl_append, List.foldl_append, hbody]
          exact ⟨rfl, rfl⟩
  | quoted =>
      have hbody : (quote :: (double s ++ [quote])).foldl step (.start lines fields) =
          .closed lines fields s := by
        rw [List.foldl_cons, List.foldl_append]
        change [quote].foldl step ((double s).foldl step (.quoted lines fields [])) = _
        rw [foldl_double]
        rfl
      rw [List.foldl_append, List.foldl_append, hbody]
      exact ⟨rfl, rfl⟩

def line (ts : List Text) : Text := List.intercalate [','] ts ++ ['\n']

theorem foldl_line {s t : Text} {ss ts : List Text} (h : List.Forall₂ Spells (s :: ss) (t :: ts))
    (lines : List Record) (fields : Record) :
    (line (t :: ts)).foldl step (.start lines fields) = .start (lines ++ [fields ++ s :: ss]) [] := by
  induction ss generalizing s t ts fields with
  | nil =>
      obtain ⟨hst, hnil⟩ := List.forall₂_cons.mp h
      cases hnil
      simpa [line] using (foldl_field hst lines fields).2
  | cons s' ss ih =>
      obtain ⟨hst, hrest⟩ := List.forall₂_cons.mp h
      cases ts with
      | nil => cases hrest
      | cons t' ts =>
          have hline : line (t :: t' :: ts) = (t ++ [',']) ++ line (t' :: ts) := by
            simp [line, List.intercalate]
          rw [hline, List.foldl_append, (foldl_field hst lines fields).1, ih hrest, List.append_assoc,
            List.singleton_append]

/-- A text of spelled lines reads as its records. -/
theorem read_lines {records : List Record} {spelled : List (List Text)}
    (h : List.Forall₂ (List.Forall₂ Spells) records spelled) (hne : ∀ r ∈ records, r ≠ []) :
    read (spelled.map line).flatten = some records := by
  have hrun : ∀ lines, ((spelled.map line).flatten).foldl step (.start lines []) =
      .start (lines ++ records) [] := by
    induction h with
    | nil => simp
    | @cons r ts records spelled hr _ ih =>
        intro lines
        cases r with
        | nil => exact absurd rfl (hne [] List.mem_cons_self)
        | cons s ss =>
            cases ts with
            | nil => cases hr
            | cons t ts =>
                rw [List.map_cons, List.flatten_cons, List.foldl_append, foldl_line hr,
                  ih fun r hr => hne r (List.mem_cons_of_mem _ hr)]
                simp
  rw [read, hrun []]
  rfl

end FipsDropbox.Csv
