import Mathlib.Data.List.TakeWhile
import FipsDropbox.Lib.Utf8

/-!
# Strings of the Rust standard library

`lines` is `str::lines`, `trim` is `str::trim` and `hexEncode` is the lower-case
hexadecimal spelling of a byte string. A text written as newline-terminated
lines is read back as those lines.
-/
namespace FipsDropbox
open Utf8

/-- The Unicode `White_Space` property, which `char::is_whitespace` decides. -/
def isWhitespace (c : Char) : Bool :=
  let n := c.toNat
  (9 ≤ n && n ≤ 13) || n = 0x20 || n = 0x85 || n = 0xA0 || n = 0x1680 ||
    (0x2000 ≤ n && n ≤ 0x200A) || n = 0x2028 || n = 0x2029 || n = 0x202F || n = 0x205F || n = 0x3000

def trim (t : Text) : Text :=
  ((t.dropWhile isWhitespace).reverse.dropWhile isWhitespace).reverse

theorem dropWhile_visible {t : Text} (h : ∀ c ∈ t, isWhitespace c = false) : t.dropWhile isWhitespace = t := by
  cases t with
  | nil => rfl
  | cons c t => exact List.dropWhile_cons_of_neg (by rw [h c List.mem_cons_self]; exact Bool.false_ne_true)

theorem trim_of_visible {t : Text} (h : ∀ c ∈ t, isWhitespace c = false) : trim t = t := by
  rw [trim, dropWhile_visible h, dropWhile_visible fun c hc => h c (List.mem_reverse.mp hc), List.reverse_reverse]

theorem mem_of_mem_trim {t : Text} {c : Char} (h : c ∈ trim t) : c ∈ t := by
  have h1 := (List.dropWhile_sublist isWhitespace).subset (List.mem_reverse.mp h)
  exact (List.dropWhile_sublist isWhitespace).subset (List.mem_reverse.mp h1)

theorem trim_blanks (n : ℕ) (t : Text) : trim (List.replicate n ' ' ++ t) = trim t := by
  have hblank : ∀ c ∈ List.replicate n ' ', isWhitespace c = true := by
    intro c hc
    rw [List.eq_of_mem_replicate hc]
    rfl
  rw [trim, List.dropWhile_append_of_pos hblank, trim]

/-- What starts with a visible character is trimmed at its end only, and there not
beyond another visible one. -/
theorem trim_through {a c : Char} {p : Text} (ha : isWhitespace a = false) (hc : isWhitespace c = false)
    (t : Text) : ∃ t', trim (a :: p ++ c :: t) = a :: p ++ c :: t' := by
  have hstart : (a :: p ++ c :: t).dropWhile isWhitespace = a :: p ++ c :: t := by
    rw [List.cons_append, List.dropWhile_cons_of_neg (by rw [ha]; exact Bool.false_ne_true)]
  have hend : (c :: (a :: p).reverse).dropWhile isWhitespace = c :: (a :: p).reverse :=
    List.dropWhile_cons_of_neg (by rw [hc]; exact Bool.false_ne_true)
  have hsplit : (a :: p ++ c :: t).reverse = t.reverse ++ c :: (a :: p).reverse := by
    rw [List.reverse_append, List.reverse_cons, List.append_assoc, List.singleton_append]
  rw [trim, hstart, hsplit, List.dropWhile_append, hend]
  by_cases hempty : (t.reverse.dropWhile isWhitespace).isEmpty = true
  · refine ⟨[], ?_⟩
    rw [if_pos hempty, List.reverse_cons, List.reverse_reverse]
  · refine ⟨(t.reverse.dropWhile isWhitespace).reverse, ?_⟩
    rw [if_neg hempty, List.reverse_append, List.reverse_cons, List.reverse_reverse, List.append_assoc,
      List.singleton_append]

/-- A visible text is what its blanks leave. -/
theorem trim_padded {t : Text} (h : ∀ c ∈ t, isWhitespace c = false) (m n : ℕ) :
    trim (List.replicate m ' ' ++ t ++ List.replicate n ' ') = t := by
  have hblanks : (List.replicate n ' ').dropWhile isWhitespace = [] := by
    rw [List.dropWhile_eq_nil_iff]
    intro c hc
    rw [List.eq_of_mem_replicate hc]
    rfl
  have hrev : ∀ c ∈ t.reverse, isWhitespace c = false := fun c hc => h c (List.mem_reverse.mp hc)
  rw [List.append_assoc, trim_blanks, trim, List.dropWhile_append, dropWhile_visible h]
  by_cases hempty : t.isEmpty = true
  · obtain rfl := List.isEmpty_iff.mp hempty
    rw [if_pos hempty, hblanks]
    rfl
  · rw [if_neg hempty, List.reverse_append, List.reverse_replicate, List.dropWhile_append, hblanks,
      if_pos List.isEmpty_nil, dropWhile_visible hrev, List.reverse_reverse]

/-- `t.trim().is_empty()`. -/
def isBlank (t : Text) : Bool := (trim t).isEmpty

theorem isBlank_cons_of_visible {c : Char} (h : isWhitespace c = false) (t : Text) :
    isBlank (c :: t) = false := by
  simp only [isBlank, trim, List.dropWhile_cons, h, Bool.false_eq_true, if_false,
    List.reverse_cons, List.isEmpty_reverse]
  rw [Bool.eq_false_iff]
  intro he
  have hall := List.dropWhile_eq_nil_iff.mp (List.isEmpty_iff.mp he)
  have hc := hall c (by simp)
  rw [h] at hc
  cases hc

/-- A `\r` directly before the terminator belongs to the terminator. -/
def stripCr (l : Text) : Text := if l.getLast? = some '\r' then l.dropLast else l

/-- `acc` holds the current line in reverse. An unterminated last line is kept
as it stands, and an empty one is not a line. -/
def linesFrom : Text → Text → List Text
  | [], [] => []
  | a :: acc, [] => [(a :: acc).reverse]
  | acc, c :: t => if c = '\n' then stripCr acc.reverse :: linesFrom [] t else linesFrom (c :: acc) t

def lines (t : Text) : List Text := linesFrom [] t

theorem linesFrom_terminated {l : Text} (h : '\n' ∉ l) (acc t : Text) :
    linesFrom acc (l ++ '\n' :: t) = stripCr (acc.reverse ++ l) :: lines t := by
  induction l generalizing acc with
  | nil => simp [linesFrom, lines]
  | cons c l ih =>
      obtain ⟨hc, hl⟩ := not_or.mp (mt List.mem_cons.mpr h)
      simp only [List.cons_append, linesFrom]
      rw [if_neg (Ne.symm hc), ih hl]
      simp

theorem linesFrom_tail {l : Text} (h : '\n' ∉ l) (acc : Text) (hne : acc.reverse ++ l ≠ []) :
    linesFrom acc l = [acc.reverse ++ l] := by
  induction l generalizing acc with
  | nil =>
      cases acc with
      | nil => exact absurd rfl hne
      | cons a acc => simp [linesFrom]
  | cons c l ih =>
      obtain ⟨hc, hl⟩ := not_or.mp (mt List.mem_cons.mpr h)
      simp only [linesFrom]
      rw [if_neg (Ne.symm hc), ih hl (c :: acc) (by simp)]
      simp

@[simp] theorem lines_nil : lines [] = [] := rfl

theorem lines_terminated {l : Text} (h : '\n' ∉ l) (t : Text) :
    lines (l ++ '\n' :: t) = stripCr l :: lines t :=
  linesFrom_terminated h [] t

theorem lines_tail {l : Text} (h : '\n' ∉ l) (hne : l ≠ []) : lines l = [l] :=
  linesFrom_tail h [] hne

/-- The file body of a list of lines, each followed by its terminator. -/
def joinLines (ls : List Text) : Text := ls.flatMap (· ++ ['\n'])

@[simp] theorem joinLines_nil : joinLines [] = [] := rfl

@[simp] theorem joinLines_cons (l : Text) (ls : List Text) :
    joinLines (l :: ls) = l ++ '\n' :: joinLines ls := by
  simp [joinLines]

@[simp] theorem joinLines_append (ls ms : List Text) :
    joinLines (ls ++ ms) = joinLines ls ++ joinLines ms := by
  simp [joinLines]

/-- A text that is safe as one line: no terminator inside, no `\r` at its end. -/
def OneLine (l : Text) : Prop := '\n' ∉ l ∧ l.getLast? ≠ some '\r'

theorem OneLine.stripCr {l : Text} (h : OneLine l) : stripCr l = l := if_neg h.2

/-- What follows the terminated lines of a text is split on its own. -/
theorem lines_joinLines_append {ls : List Text} (h : ∀ l ∈ ls, OneLine l) (t : Text) :
    lines (joinLines ls ++ t) = ls ++ lines t := by
  induction ls with
  | nil => rfl
  | cons l ls ih =>
      have hl := h l (by simp)
      rw [joinLines_cons, List.append_assoc, List.cons_append, lines_terminated hl.1, hl.stripCr,
        ih (fun m hm => h m (List.mem_cons_of_mem _ hm))]
      rfl

theorem lines_joinLines {ls : List Text} (h : ∀ l ∈ ls, OneLine l) : lines (joinLines ls) = ls := by
  simpa using lines_joinLines_append h []

/-- The lines of a terminated text and those of what is appended to it. -/
theorem lines_append {t : Text} (h : t.getLast? = some '\n') (u : Text) :
    lines (t ++ u) = lines t ++ lines u := by
  have key (t acc : Text) : linesFrom acc (t ++ '\n' :: u) = linesFrom acc (t ++ ['\n']) ++ lines u := by
    induction t generalizing acc with
    | nil => simp [linesFrom, lines]
    | cons c t ih =>
        simp only [List.cons_append, linesFrom]
        split_ifs <;> simp [ih]
  obtain ⟨s, rfl⟩ := List.getLast?_eq_some_iff.mp h
  simpa [lines] using key s []

def hexDigit (n : ℕ) : Char := Char.ofNat (if n < 10 then 48 + n else 87 + n)

def hexByte (b : UInt8) : Text := [hexDigit (b.toNat / 16), hexDigit (b.toNat % 16)]

def hexEncode (bs : Bytes) : Text := bs.flatMap hexByte

theorem hexDigit_injOn : ∀ m < 16, ∀ n < 16, hexDigit m = hexDigit n → m = n := by decide

theorem hexByte_injective {a b : UInt8} (h : hexByte a = hexByte b) : a = b := by
  have ha : a.toNat < 256 := a.toNat_lt
  have hb : b.toNat < 256 := b.toNat_lt
  simp only [hexByte, List.cons.injEq, and_true] at h
  have hhi := hexDigit_injOn _ (by omega) _ (by omega) h.1
  have hlo := hexDigit_injOn _ (by omega) _ (by omega) h.2
  exact UInt8.toNat_inj.mp (by omega)

theorem hexEncode_injective {as bs : Bytes} (h : hexEncode as = hexEncode bs) : as = bs := by
  induction as generalizing bs with
  | nil =>
      cases bs with
      | nil => rfl
      | cons b bs => simp [hexEncode, hexByte] at h
  | cons a as ih =>
      cases bs with
      | nil => simp [hexEncode, hexByte] at h
      | cons b bs =>
          simp only [hexEncode, List.flatMap_cons] at h
          obtain ⟨hab, hrest⟩ := List.append_inj h rfl
          rw [hexByte_injective hab, ih hrest]

def isDigit (c : Char) : Bool := 48 ≤ c.toNat && c.toNat ≤ 57

def digitValue (c : Char) : ℕ := c.toNat - 48

def valueOf (ds : Text) : ℕ := ds.foldl (fun n c => n * 10 + digitValue c) 0

theorem hexDigit_digit : ∀ n < 10, isDigit (hexDigit n) = true ∧ digitValue (hexDigit n) = n := by
  decide

end FipsDropbox
