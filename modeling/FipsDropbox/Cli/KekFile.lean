import Mathlib.Logic.Function.Iterate
import FipsDropbox.Cli.InitCmd
import FipsDropbox.Lib.Runs

/-!
# The KEK file under calls that interleave

A call of `KekManager::init` looks for the file, generates and seals a key, and writes
the file, and other calls may come in between. What it looked for may be there by the
time it writes.
-/
namespace FipsDropbox.Cli.KekManager
open Utf8 Exec Crypto Runs

def checkFree : Exec (Option Bytes) KekError Unit := do
  let taken ← read Option.isSome
  failIf taken .alreadyExists

def generate (host : InitHost) : Exec (Option Bytes) KekError (Octets 32) := do
  let kek ← orErr .cng host.kek
  failIf (host.failsAt .protectKek) .cng
  failIf (host.failsAt .kekFileParent) .io
  pure kek

theorem init_eq (host : InitHost) :
    init host = checkFree >>= fun _ => generate host >>= fun kek =>
      writeKek host (host.protect kek) >>= fun _ => pure kek := by
  simp only [init, checkFree, generate, bind_assoc, pure_bind]

/-- Where a call is; the manager it returned holds its key. -/
inductive Phase where
  | idle
  | checked
  | holding (kek : Octets 32) (content : Bytes)
  | ready (kek : Octets 32)
  | failed

def Phase.waits : Phase → Prop
  | .checked | .holding .. => True
  | .idle | .ready _ | .failed => False

def Phase.settle {α : Type} (next : α → Phase) : Outcome KekError α → Phase
  | .ok a => next a
  | .err _ => .failed
  | .panic => .failed

/-- One step of a call; a call that has ended makes none. -/
def Phase.next (host : InitHost) : Phase → Option Bytes → Phase × Option Bytes
  | .idle, file => (settle (fun _ => .checked) (checkFree file).1, (checkFree file).2)
  | .checked, file =>
      (settle (fun kek => .holding kek (host.protect kek)) (generate host file).1, (generate host file).2)
  | .holding kek content, file =>
      (settle (fun _ => .ready kek) (writeKek host content file).1, (writeKek host content file).2)
  | .ready kek, file => (.ready kek, file)
  | .failed, file => (.failed, file)

/-- The file, and the calls by their number. -/
structure Calls where
  file : Option Bytes
  phase : ℕ → Phase

def Calls.start : Calls := ⟨none, fun _ => .idle⟩

def Calls.step (m : Calls) (i : ℕ × InitHost) : Calls where
  file := ((m.phase i.1).next i.2 m.file).2
  phase := Function.update m.phase i.1 ((m.phase i.1).next i.2 m.file).1

/-- Three steps of one call are `init`. -/
theorem init_iterate (host : InitHost) (file : Option Bytes) :
    (fun p : Phase × Option Bytes => p.1.next host p.2)^[3] (.idle, file) =
      (Phase.settle .ready (init host file).1, (init host file).2) := by
  simp only [Function.iterate_succ_apply, Function.iterate_zero_apply, init_eq]
  rcases hcheck : checkFree file with ⟨u | e | _, f⟩
  · rw [bind_ok hcheck]
    rcases hgen : generate host f with ⟨kek | e | _, f'⟩
    · rw [bind_ok hgen]
      rcases hwrite : writeKek host (host.protect kek) f' with ⟨u | e | _, f''⟩
      · simp only [Phase.next, Phase.settle, hcheck, hgen, hwrite, bind_ok hwrite, pure_apply]
      · simp only [Phase.next, Phase.settle, hcheck, hgen, hwrite, bind_err hwrite]
      · simp only [Phase.next, Phase.settle, hcheck, hgen, hwrite, bind_panic hwrite]
    · simp only [Phase.next, Phase.settle, hcheck, hgen, bind_err hgen]
    · simp only [Phase.next, Phase.settle, hcheck, hgen, bind_panic hgen]
  · simp only [Phase.next, Phase.settle, hcheck, bind_err hcheck]
  · simp only [Phase.next, Phase.settle, hcheck, bind_panic hcheck]

theorem checkFree_cases (file : Option Bytes) :
    (file = none ∧ checkFree file = (.ok (), file)) ∨
      (file.isSome = true ∧ checkFree file = (.err .alreadyExists, file)) := by
  cases file with
  | none => exact .inl ⟨rfl, rfl⟩
  | some content => exact .inr ⟨rfl, rfl⟩

theorem generate_cases (host : InitHost) (file : Option Bytes) :
    (∃ kek, generate host file = (.ok kek, file)) ∨ ∃ e, generate host file = (.err e, file) := by
  unfold generate
  cases host.kek with
  | none => exact .inr ⟨_, rfl⟩
  | some kek =>
      cases host.failsAt .protectKek with
      | true => exact .inr ⟨_, rfl⟩
      | false =>
          cases host.failsAt .kekFileParent with
          | true => exact .inr ⟨_, rfl⟩
          | false => exact .inl ⟨kek, rfl⟩

/-- The write fails before it has created a file. -/
def Misses (host : InitHost) : Prop := host.failsAt .writeKek = true ∧ host.partialKek = none

theorem writeKek_cases (host : InitHost) (content : Bytes) (file : Option Bytes) :
    (host.failsAt .writeKek = false ∧ writeKek host content file = (.ok (), some content)) ∨
    (Misses host ∧ writeKek host content file = (.err .io, file)) ∨
    ∃ n, host.failsAt .writeKek = true ∧ host.partialKek = some n ∧
      writeKek host content file = (.err .io, some (content.take n)) := by
  unfold writeKek Misses
  cases host.failsAt .writeKek with
  | false => exact .inl ⟨rfl, rfl⟩
  | true =>
      cases host.partialKek with
      | none => exact .inr (.inl ⟨⟨rfl, rfl⟩, rfl⟩)
      | some n => exact .inr (.inr ⟨n, rfl, rfl, rfl⟩)

/-- A step leaves the file alone and holds or returns no new key, or draws a key, or writes the
file in full, or begins to. -/
theorem next_cases (host : InitHost) (p : Phase) (file : Option Bytes) :
    (((p.next host file).1 = p ∨ (p.next host file).1 = .checked ∨ (p.next host file).1 = .failed) ∧
      (p.next host file).2 = file) ∨
    (∃ kek, p.next host file = (.holding kek (host.protect kek), file)) ∨
    (∃ kek content, p = .holding kek content ∧ host.failsAt .writeKek = false ∧
      p.next host file = (.ready kek, some content)) ∨
    ∃ kek content n, p = .holding kek content ∧ ¬ Misses host ∧
      p.next host file = (.failed, some (content.take n)) := by
  cases p with
  | idle =>
      rcases checkFree_cases file with ⟨-, h⟩ | ⟨-, h⟩ <;> simp only [Phase.next, Phase.settle, h]
      · exact .inl ⟨.inr (.inl trivial), trivial⟩
      · exact .inl ⟨.inr (.inr trivial), trivial⟩
  | checked =>
      rcases generate_cases host file with ⟨kek, h⟩ | ⟨e, h⟩ <;> simp only [Phase.next, Phase.settle, h]
      · exact .inr (.inl ⟨kek, rfl⟩)
      · exact .inl ⟨.inr (.inr trivial), trivial⟩
  | holding kek content =>
      rcases writeKek_cases host content file with ⟨hok, h⟩ | ⟨-, h⟩ | ⟨n, -, hsome, h⟩ <;>
        simp only [Phase.next, Phase.settle, h]
      · exact .inr (.inr (.inl ⟨kek, content, rfl, hok, rfl⟩))
      · exact .inl ⟨.inr (.inr trivial), trivial⟩
      · refine .inr (.inr (.inr ⟨kek, content, n, rfl, ?_, rfl⟩))
        rintro ⟨-, hnone⟩
        rw [hsome] at hnone
        cases hnone
  | ready kek => exact .inl ⟨.inl rfl, rfl⟩
  | failed => exact .inl ⟨.inl rfl, rfl⟩

theorem next_waits {host : InitHost} {p : Phase} {file : Option Bytes} (h : (p.next host file).1.waits) :
    p = .idle ∧ file = none ∨ p.waits := by
  cases p with
  | idle =>
      rcases checkFree_cases file with ⟨hfile, -⟩ | ⟨-, hfound⟩
      · exact .inl ⟨rfl, hfile⟩
      · simp only [Phase.next, Phase.settle, hfound, Phase.waits] at h
  | checked => exact .inr trivial
  | holding kek content => exact .inr trivial
  | ready kek => exact absurd h not_false
  | failed => exact absurd h not_false

theorem next_file {host : InitHost} {p : Phase} {file : Option Bytes} (h : file.isSome = true) :
    (p.next host file).2.isSome = true := by
  rcases next_cases host p file with ⟨-, hfile⟩ | ⟨kek, hnext⟩ | ⟨kek, content, -, -, hnext⟩ |
    ⟨kek, content, n, -, -, hnext⟩
  · rwa [hfile]
  · rwa [hnext]
  · rw [hnext]
    rfl
  · rw [hnext]
    rfl

theorem next_of_ok {host : InitHost} {kek : Octets 32} {content : Bytes} (hok : host.failsAt .writeKek = false)
    (file : Option Bytes) : (Phase.holding kek content).next host file = (.ready kek, some content) := by
  rw [Phase.next, writeKek, hok]
  rfl

/-- The step writes to the file, in full or in part. -/
def Writes (m : Calls) (i : ℕ × InitHost) : Prop :=
  (∃ kek content, m.phase i.1 = .holding kek content) ∧ ¬ Misses i.2

def WritesAll (m : Calls) (i : ℕ × InitHost) : Prop :=
  (∃ kek content, m.phase i.1 = .holding kek content) ∧ i.2.failsAt .writeKek = false

/-- The calls, and which of them another call's full write has overtaken since they looked
for the file. -/
structure Schedule where
  calls : Calls
  overtaken : ℕ → Prop

def Schedule.start : Schedule := ⟨.start, fun _ => False⟩

def Schedule.step (s : Schedule) (i : ℕ × InitHost) : Schedule where
  calls := s.calls.step i
  overtaken j := if j = i.1 then s.overtaken j ∧ s.calls.phase j ≠ .idle else s.overtaken j ∨ WritesAll s.calls i

/-- No full write of another call comes between a call's look for the file and its write. -/
def Clear (s : Schedule) (i : ℕ × InitHost) : Prop := Writes s.calls i → ¬ s.overtaken i.1

theorem Schedule.foldl_calls (s : Schedule) (steps : List (ℕ × InitHost)) :
    (steps.foldl Schedule.step s).calls = steps.foldl Calls.step s.calls := by
  induction steps generalizing s with
  | nil => rfl
  | cons i steps ih => exact ih (s.step i)

def Returned (m : Calls) : Prop := ∃ j kek, m.phase j = .ready kek

/-- Who has returned has written in full, and stays returned. -/
theorem returned_step_iff {m : Calls} {i : ℕ × InitHost} : Returned (m.step i) ↔ Returned m ∨ WritesAll m i := by
  have hself : (m.step i).phase i.1 = ((m.phase i.1).next i.2 m.file).1 := Function.update_self _ _ _
  constructor
  · rintro ⟨j, kek, hj⟩
    by_cases hji : j = i.1
    · rw [hji, hself] at hj
      rcases next_cases i.2 (m.phase i.1) m.file with ⟨hphase, -⟩ | ⟨kek', hnext⟩ | ⟨kek', content, hheld, hok, -⟩ |
        ⟨kek', content, n, -, -, hnext⟩
      · rcases hphase with hp | hp | hp <;> rw [hp] at hj
        · exact .inl ⟨i.1, kek, hj⟩
        · cases hj
        · cases hj
      · rw [hnext] at hj
        cases hj
      · exact .inr ⟨⟨kek', content, hheld⟩, hok⟩
      · rw [hnext] at hj
        cases hj
    · exact .inl ⟨j, kek, (Function.update_of_ne hji _ _).symm.trans hj⟩
  · rintro (⟨j, kek, hj⟩ | ⟨⟨kek, content, hheld⟩, hok⟩)
    · refine ⟨j, kek, ?_⟩
      by_cases hji : j = i.1
      · rw [hji, hself, ← hji, hj]
        rfl
      · exact (Function.update_of_ne hji _ _).trans hj
    · exact ⟨i.1, kek, by rw [hself, hheld, next_of_ok hok]⟩

/-- The guard at work: a call on the way to its write has found no file, so none had returned
then, and one has since exactly if it was overtaken. -/
structure Schedule.Watched (s : Schedule) : Prop where
  there : Returned s.calls → s.calls.file.isSome = true
  overtaken : ∀ i, (s.calls.phase i).waits → (s.overtaken i ↔ Returned s.calls)

theorem Schedule.Watched.start : Schedule.start.Watched := by
  refine ⟨?_, fun i h => absurd h not_false⟩
  rintro ⟨j, kek, hj⟩
  cases hj

theorem Schedule.Watched.step {s : Schedule} (h : s.Watched) (i : ℕ × InitHost) : (s.step i).Watched where
  there := by
    change Returned (s.calls.step i) → ((s.calls.phase i.1).next i.2 s.calls.file).2.isSome = true
    rw [returned_step_iff]
    rintro (hreturned | ⟨⟨kek, content, hheld⟩, hok⟩)
    · exact next_file (h.there hreturned)
    · rw [hheld, next_of_ok hok]
      rfl
  overtaken := by
    intro j hwaits
    change (if j = i.1 then s.overtaken j ∧ s.calls.phase j ≠ .idle else s.overtaken j ∨ WritesAll s.calls i) ↔
      Returned (s.calls.step i)
    rw [returned_step_iff]
    by_cases hji : j = i.1
    · subst hji
      have hself : (s.calls.step i).phase i.1 = ((s.calls.phase i.1).next i.2 s.calls.file).1 :=
        Function.update_self _ _ _
      have hnot : ¬ WritesAll s.calls i := by
        rintro ⟨⟨kek, content, hheld⟩, hok⟩
        change ((s.calls.step i).phase i.1).waits at hwaits
        rw [hself, hheld, next_of_ok hok] at hwaits
        exact hwaits
      rw [if_pos rfl, or_iff_left hnot]
      change ((s.calls.step i).phase i.1).waits at hwaits
      rw [hself] at hwaits
      rcases next_waits hwaits with ⟨hidle, hfile⟩ | hbefore
      · -- the look: nobody has returned, for there is no file
        constructor
        · exact fun hboth => absurd hidle hboth.2
        · intro hreturned
          have hthere := h.there hreturned
          rw [hfile] at hthere
          cases hthere
      · rw [← h.overtaken i.1 hbefore]
        refine and_iff_left ?_
        intro hidle
        rw [hidle] at hbefore
        exact hbefore
    · have hother : (s.calls.step i).phase j = s.calls.phase j := Function.update_of_ne hji _ _
      change ((s.calls.step i).phase j).waits at hwaits
      rw [hother] at hwaits
      rw [if_neg hji, h.overtaken j hwaits]

/-- Where the schedule is clear, nobody has returned when a call writes. -/
theorem Schedule.Watched.alone {s : Schedule} (h : s.Watched) {i : ℕ × InitHost} (hclear : Clear s i)
    (hwrites : Writes s.calls i) : ¬ Returned s.calls := by
  obtain ⟨kek, content, hheld⟩ := hwrites.1
  rw [← h.overtaken i.1 (by rw [hheld]; trivial)]
  exact hclear hwrites

/-- DPAPI undoes its own protection. -/
def Reversible (unprotect : Bytes → Option Bytes) (i : ℕ × InitHost) : Prop :=
  ∀ kek, unprotect (i.2.protect kek) = some kek.val

structure Sound (unprotect : Bytes → Option Bytes) (m : Calls) : Prop where
  once : ∀ i j kek kek', m.phase i = .ready kek → m.phase j = .ready kek' → i = j
  file : ∀ i kek, m.phase i = .ready kek → ∃ content, m.file = some content ∧ unprotect content = some kek.val
  held : ∀ i kek content, m.phase i = .holding kek content → unprotect content = some kek.val

/-- At most one call has returned a manager, and a restart gives its key, so that what it has
wrapped can be unwrapped. -/
structure Kept (B : Bcrypt) (unprotect : Bytes → Option Bytes) (m : Calls) : Prop where
  once : ∀ i j kek kek', m.phase i = .ready kek → m.phase j = .ready kek' → i = j
  loads : ∀ i kek, m.phase i = .ready kek → load unprotect m.file = (.ok kek, m.file)
  unwraps : ∀ i kek, m.phase i = .ready kek → ∀ (env : Env) dek wrapped (s s' : Storage.Store),
    Kek.wrapDek env B kek dek s = (.ok wrapped, s') →
      ∃ loaded, load unprotect m.file = (.ok loaded, m.file) ∧ Kek.Unwraps B loaded wrapped dek

section
variable {unprotect : Bytes → Option Bytes} {m : Calls}

theorem Sound.start : Sound unprotect .start := ⟨nofun, nofun, nofun⟩

theorem Sound.unwritten (h : Sound unprotect m) {m' : Calls} (hfile : m'.file = m.file)
    (hready : ∀ i kek, m'.phase i = .ready kek → m.phase i = .ready kek)
    (hheld : ∀ i kek content, m'.phase i = .holding kek content → unprotect content = some kek.val) :
    Sound unprotect m' := by
  refine ⟨?_, ?_, hheld⟩
  · intro i j kek kek' hi hj
    exact h.once i j kek kek' (hready i kek hi) (hready j kek' hj)
  · intro i kek hi
    rw [hfile]
    exact h.file i kek (hready i kek hi)

/-- A call that writes the file in full is the only one that has returned. -/
theorem Sound.written (h : Sound unprotect m) {m' : Calls} {i : ℕ} {kek : Octets 32} {content : Bytes}
    (hheld : m.phase i = .holding kek content) (hnone : ¬ Returned m)
    (hfile : m'.file = some content) (hself : m'.phase i = .ready kek)
    (hother : ∀ j, j ≠ i → m'.phase j = m.phase j) : Sound unprotect m' := by
  have hready : ∀ j kek', m'.phase j = .ready kek' → j = i ∧ kek' = kek := by
    intro j kek' hj
    by_cases hji : j = i
    · rw [hji, hself] at hj
      cases hj
      exact ⟨hji, rfl⟩
    · rw [hother j hji] at hj
      exact absurd ⟨j, kek', hj⟩ hnone
  refine ⟨?_, ?_, ?_⟩
  · intro j k kek₁ kek₂ hj hk
    rw [(hready j kek₁ hj).1, (hready k kek₂ hk).1]
  · intro j kek' hj
    rw [(hready j kek' hj).2]
    exact ⟨content, hfile, h.held i kek content hheld⟩
  · intro j kek' content' hj
    by_cases hji : j = i
    · rw [hji, hself] at hj
      cases hj
    · rw [hother j hji] at hj
      exact h.held j kek' content' hj

theorem Sound.begun (h : Sound unprotect m) {m' : Calls} {i : ℕ} (hnone : ¬ Returned m)
    (hself : m'.phase i = .failed) (hother : ∀ j, j ≠ i → m'.phase j = m.phase j) : Sound unprotect m' := by
  have hready : ∀ j kek', m'.phase j ≠ .ready kek' := by
    intro j kek' hj
    by_cases hji : j = i
    · rw [hji, hself] at hj
      cases hj
    · rw [hother j hji] at hj
      exact hnone ⟨j, kek', hj⟩
  refine ⟨fun i j kek kek' hi _ => absurd hi (hready i kek), fun i kek hi => absurd hi (hready i kek), ?_⟩
  intro j kek' content' hj
  by_cases hji : j = i
  · rw [hji, hself] at hj
    cases hj
  · rw [hother j hji] at hj
    exact h.held j kek' content' hj

theorem Sound.step (h : Sound unprotect m) {i : ℕ × InitHost} (halone : Writes m i → ¬ Returned m)
    (hrev : Reversible unprotect i) : Sound unprotect (m.step i) := by
  have hother : ∀ j, j ≠ i.1 → (m.step i).phase j = m.phase j := fun j hj => Function.update_of_ne hj _ _
  have hself : (m.step i).phase i.1 = ((m.phase i.1).next i.2 m.file).1 := Function.update_self _ _ _
  rcases next_cases i.2 (m.phase i.1) m.file with ⟨hphase, hfile⟩ | ⟨kek, hnext⟩ | ⟨kek, content, hheld, hok, hnext⟩ |
    ⟨kek, content, n, hheld, hwrites, hnext⟩
  · -- nothing is written, and the call holds or has returned what it had
    apply h.unwritten hfile
    · intro j kek hj
      by_cases hji : j = i.1
      · rw [hji, hself] at hj
        rw [hji]
        rcases hphase with hp | hp | hp <;> rw [hp] at hj
        · exact hj
        · cases hj
        · cases hj
      · rwa [← hother j hji]
    · intro j kek content hj
      by_cases hji : j = i.1
      · rw [hji, hself] at hj
        rcases hphase with hp | hp | hp <;> rw [hp] at hj
        · exact h.held i.1 kek content hj
        · cases hj
        · cases hj
      · rw [hother j hji] at hj
        exact h.held j kek content hj
  · -- a new key is drawn
    rw [hnext] at hself
    apply h.unwritten (congrArg Prod.snd hnext)
    · intro j kek' hj
      by_cases hji : j = i.1
      · rw [hji, hself] at hj
        cases hj
      · rwa [← hother j hji]
    · intro j kek' content hj
      by_cases hji : j = i.1
      · rw [hji, hself] at hj
        cases hj
        exact hrev kek
      · rw [hother j hji] at hj
        exact h.held j kek' content hj
  · rw [hnext] at hself
    refine h.written hheld (halone ⟨⟨kek, content, hheld⟩, ?_⟩) (congrArg Prod.snd hnext) hself hother
    rintro ⟨hfails, -⟩
    rw [hok] at hfails
    cases hfails
  · rw [hnext] at hself
    exact h.begun (halone ⟨⟨kek, content, hheld⟩, hwrites⟩) hself hother

theorem load_of_file {file : Option Bytes} {content : Bytes} {kek : Octets 32} (hfile : file = some content)
    (hcontent : unprotect content = some kek.val) : load unprotect file = (.ok kek, file) := by
  subst hfile
  have hbytes : DataKey.ofBytes kek.val = some kek := dif_pos kek.property
  rw [load, bind_ok (read_apply _ _), id, bind_ok (orErr_ok_iff.mpr ⟨rfl, rfl⟩),
    bind_ok (orErr_ok_iff.mpr ⟨hcontent, rfl⟩)]
  exact orErr_ok_iff.mpr ⟨hbytes, rfl⟩

/-- Conversely, a full write of a call that was overtaken makes two managers. -/
theorem two_of_overtaken {s : Schedule} (h : s.Watched) {i : ℕ × InitHost} (hover : s.overtaken i.1)
    (hwrites : WritesAll s.calls i) :
    ∃ j kek kek', j ≠ i.1 ∧ (s.calls.step i).phase j = .ready kek ∧ (s.calls.step i).phase i.1 = .ready kek' := by
  obtain ⟨⟨kek, content, hheld⟩, hok⟩ := hwrites
  obtain ⟨j, kek', hj⟩ := (h.overtaken i.1 (by rw [hheld]; trivial)).mp hover
  have hne : j ≠ i.1 := by
    intro heq
    rw [heq, hheld] at hj
    cases hj
  refine ⟨j, kek', kek, hne, (Function.update_of_ne hne _ _).trans hj, (Function.update_self _ _ _).trans ?_⟩
  rw [hheld, next_of_ok hok]

/-- In every run whose schedule is clear, at most one call returns a manager, and its key is
the one that a restart loads. -/
theorem kek_written_once {B : Bcrypt} (D : B.Documented) {steps : List (ℕ × InitHost)}
    (hrev : ∀ i ∈ steps, Reversible unprotect i) (hclear : Throughout Schedule.step Clear .start steps) :
    Kept B unprotect (steps.foldl Calls.step .start) := by
  have hkept : (steps.foldl Schedule.step .start).Watched ∧ Sound unprotect (steps.foldl Schedule.step .start).calls :=
    (hclear.and_forall hrev).keeps (fun s => s.Watched ∧ Sound unprotect s.calls) ⟨.start, .start⟩
      fun s i h hi => ⟨h.1.step i, h.2.step (h.1.alone hi.1) hi.2⟩
  have hsound : Sound unprotect (steps.foldl Calls.step .start) := by
    have hcalls : (steps.foldl Schedule.step .start).calls = steps.foldl Calls.step .start :=
      Schedule.foldl_calls .start steps
    rw [← hcalls]
    exact hkept.2
  have hloads : ∀ i kek, (steps.foldl Calls.step .start).phase i = .ready kek →
      load unprotect (steps.foldl Calls.step .start).file = (.ok kek, (steps.foldl Calls.step .start).file) := by
    intro i kek hi
    obtain ⟨content, hfile, hcontent⟩ := hsound.file i kek hi
    exact load_of_file hfile hcontent
  refine ⟨hsound.once, hloads, ?_⟩
  intro i kek hi env dek wrapped s s' hwrap
  exact ⟨kek, hloads i kek hi, unwraps_wrapDek D hwrap⟩

end

def racingHost (n : UInt8) : InitHost where
  now _ := .unixEpoch
  random _ k := some ⟨List.replicate k 61, List.length_replicate⟩
  newId _ := ⟨List.replicate 16 62, List.length_replicate⟩
  fails _ := false
  partialWrite := none
  failsAt _ := false
  kek := some ⟨List.replicate 32 n, List.length_replicate⟩
  protect kek := kek.val
  partialKek := none
  typed := none
  typedAgain := none

def missingHost (n : UInt8) : InitHost :=
  { racingHost n with
    failsAt := fun
      | .writeKek => true
      | _ => false }

/-- Two calls look for the file and the write of one of them fails; a third call comes when
the other one has written. -/
def orderly : List (ℕ × InitHost) :=
  [(1, missingHost 53), (0, racingHost 51), (1, missingHost 53), (0, racingHost 51), (1, missingHost 53),
    (0, racingHost 51), (2, racingHost 52), (2, racingHost 52), (2, racingHost 52)]

theorem kek_written_once_orderly : Kept .reference some (orderly.foldl Calls.step .start) := by
  apply kek_written_once Bcrypt.reference_documented
  · intro i hi kek
    simp only [orderly, List.mem_cons, List.not_mem_nil, or_false] at hi
    rcases hi with rfl | rfl | rfl | rfl | rfl | rfl | rfl | rfl | rfl <;> rfl
  · refine ⟨?_, ?_, ?_, ?_, ?_, ?_, ?_, ?_, ?_, trivial⟩ <;> rintro ⟨⟨kek, content, hheld⟩, hwrites⟩
    · cases hheld
    · cases hheld
    · cases hheld
    · cases hheld
    · exact absurd ⟨rfl, rfl⟩ hwrites
    · rintro (⟨⟨-, hlook⟩ | ⟨⟨_, _, hother⟩, -⟩, -⟩ | ⟨-, hok⟩)
      · exact hlook rfl
      · cases hother
      · cases hok
    · cases hheld
    · cases hheld
    · cases hheld

/-- Both calls look for the file before either has written it: the second write destroys the
key that the first call has returned. -/
def racing : List (ℕ × InitHost) :=
  [(0, racingHost 51), (1, racingHost 52), (0, racingHost 51), (1, racingHost 52), (0, racingHost 51),
    (1, racingHost 52)]

theorem racing_overwrites :
    (racing.foldl Calls.step .start).phase 0 = .ready ⟨List.replicate 32 51, List.length_replicate⟩ ∧
    (racing.foldl Calls.step .start).phase 1 = .ready ⟨List.replicate 32 52, List.length_replicate⟩ ∧
    load some (racing.foldl Calls.step .start).file =
      (.ok ⟨List.replicate 32 52, List.length_replicate⟩, (racing.foldl Calls.step .start).file) ∧
    ¬ Kept .reference some (racing.foldl Calls.step .start) := by
  have hfirst : (racing.foldl Calls.step .start).phase 0 =
      .ready ⟨List.replicate 32 51, List.length_replicate⟩ := rfl
  have hsecond : (racing.foldl Calls.step .start).phase 1 =
      .ready ⟨List.replicate 32 52, List.length_replicate⟩ := rfl
  refine ⟨hfirst, hsecond, load_of_file rfl rfl, ?_⟩
  intro hkept
  have hsame : (0 : ℕ) = 1 := hkept.once 0 1 _ _ hfirst hsecond
  cases hsame

end FipsDropbox.Cli.KekManager
