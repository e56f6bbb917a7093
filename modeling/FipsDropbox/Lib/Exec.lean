import Mathlib.Logic.Relation
import Mathlib.Tactic.SplitIfs

/-!
# Computations that fail or panic

An `Exec σ ε α` runs on a state and ends with a value, with an error its caller
sees, or with a panic; the state it leaves is there in all three cases. `Moves`
says what a computation may do to the state, `Safe` what it may end with; both
are proved along the structure of the computation. A `Lock` is poisoned by a
panic of the computation that holds it.
-/
namespace FipsDropbox

inductive Outcome (ε α : Type) where
  | ok (a : α)
  | err (e : ε)
  | panic

/-- The value, if there is one. -/
def Outcome.value {ε α : Type} : Outcome ε α → Option α
  | .ok a => some a
  | _ => none

theorem Outcome.value_eq_some {ε α : Type} {o : Outcome ε α} {a : α} : o.value = some a ↔ o = .ok a := by
  cases o <;> simp [Outcome.value]

theorem Outcome.value_eq_none {ε α : Type} {o : Outcome ε α} (h : ∀ a, o ≠ .ok a) : o.value = none := by
  cases o with
  | ok a => exact absurd rfl (h a)
  | err e => rfl
  | panic => rfl

def Exec (σ ε α : Type) := σ → Outcome ε α × σ

/-- A mutex inside the state, as far as poisoning goes. -/
structure Lock (σ : Type) where
  poisoned : σ → Bool
  poison : σ → σ

namespace Exec
variable {σ ε ε' α β : Type}

def ret (a : α) : Exec σ ε α := fun s => (.ok a, s)

def andThen (m : Exec σ ε α) (k : α → Exec σ ε β) : Exec σ ε β := fun s =>
  match m s with
  | (.ok a, s') => k a s'
  | (.err e, s') => (.err e, s')
  | (.panic, s') => (.panic, s')

instance : Monad (Exec σ ε) where
  pure := ret
  bind := andThen

def throw (e : ε) : Exec σ ε α := fun s => (.err e, s)

def failIf (b : Bool) (e : ε) : Exec σ ε Unit := if b then throw e else ret ()

def read (f : σ → α) : Exec σ ε α := fun s => (.ok (f s), s)

def modify (f : σ → σ) : Exec σ ε Unit := fun s => (.ok (), f s)

/-- A partial operation whose undefined case is an error. -/
def orErr (e : ε) : Option α → Exec σ ε α
  | some a => ret a
  | none => throw e

/-- A result computed without the state, its error converted. -/
def lift (f : ε' → ε) : Except ε' α → Exec σ ε α
  | .ok a => ret a
  | .error e => throw (f e)

/-- A partial operation whose undefined case is a panic. -/
def orPanic : Option α → Exec σ ε α
  | some a => ret a
  | none => fun s => (.panic, s)

/-- The conversion that `?` applies to the error. -/
def adapt (f : ε → ε') (m : Exec σ ε α) : Exec σ ε' α := fun s =>
  match m s with
  | (.ok a, s') => (.ok a, s')
  | (.err e, s') => (.err (f e), s')
  | (.panic, s') => (.panic, s')

/-- Clean up after an error before passing it on. -/
def onError (m : Exec σ ε α) (f : σ → σ) : Exec σ ε α := fun s =>
  match m s with
  | (.err e, s') => (.err e, f s')
  | r => r

/-- Run under a lock: refused when it is poisoned, and poisoning it by a panic. -/
def locked (L : Lock σ) (e : ε) (m : Exec σ ε α) : Exec σ ε α := fun s =>
  if L.poisoned s then (.err e, s)
  else match m s with
    | (.panic, s') => (.panic, L.poison s')
    | r => r

/-- A task whose panic reaches the caller as an error. -/
def task (e : ε) (m : Exec σ ε α) : Exec σ ε α := fun s =>
  match m s with
  | (.panic, s') => (.err e, s')
  | r => r

/-- A computation whose error the caller looks at. -/
def attempt (m : Exec σ ε α) : Exec σ ε' (Except ε α) := fun s =>
  match m s with
  | (.ok a, s') => (.ok (.ok a), s')
  | (.err e, s') => (.ok (.error e), s')
  | (.panic, s') => (.panic, s')

/-- Run on a part of the state. -/
def zoom {τ : Type} (get : τ → σ) (set : σ → τ → τ) (m : Exec σ ε α) : Exec τ ε α := fun t =>
  ((m (get t)).1, set (m (get t)).2 t)

theorem bind_ok {m : Exec σ ε α} {s s' : σ} {a : α} (h : m s = (.ok a, s')) (k : α → Exec σ ε β) :
    (m >>= k) s = k a s' := by
  change andThen m k s = _
  rw [andThen, h]

theorem bind_err {m : Exec σ ε α} {s s' : σ} {e : ε} (h : m s = (.err e, s')) (k : α → Exec σ ε β) :
    (m >>= k) s = (.err e, s') := by
  change andThen m k s = _
  rw [andThen, h]

theorem bind_panic {m : Exec σ ε α} {s s' : σ} (h : m s = (.panic, s')) (k : α → Exec σ ε β) :
    (m >>= k) s = (.panic, s') := by
  change andThen m k s = _
  rw [andThen, h]

/-- A sequence goes on from the value of its first part, or ends with it. -/
theorem bind_cases (m : Exec σ ε α) (k : α → Exec σ ε β) (s : σ) :
    (∃ a s', m s = (.ok a, s') ∧ (m >>= k) s = k a s') ∨
    ((∀ a s', m s ≠ (.ok a, s')) ∧ ((m >>= k) s).2 = (m s).2 ∧ ∀ b, ((m >>= k) s).1 ≠ .ok b) := by
  rcases h : m s with ⟨a | e | _, s'⟩
  · exact .inl ⟨a, s', rfl, bind_ok h k⟩
  · rw [bind_err h k]
    exact .inr ⟨nofun, rfl, nofun⟩
  · rw [bind_panic h k]
    exact .inr ⟨nofun, rfl, nofun⟩

/-- Sequencing is associative, and a value does nothing. -/
instance : LawfulMonad (Exec σ ε) := LawfulMonad.mk' _
  (by
    intro α m
    funext s
    change andThen m ret s = m s
    unfold andThen
    rcases m s with ⟨a | e | _, s'⟩ <;> rfl)
  (by
    intro α β a k
    rfl)
  (by
    intro α β γ m k l
    funext s
    change andThen (andThen m k) l s = andThen m (fun a => andThen (k a) l) s
    unfold andThen
    rcases m s with ⟨a | e | _, s'⟩ <;> rfl)

@[simp] theorem pure_apply (a : α) (s : σ) : (pure a : Exec σ ε α) s = (.ok a, s) := rfl
@[simp] theorem throw_apply (e : ε) (s : σ) : (throw e : Exec σ ε α) s = (.err e, s) := rfl
@[simp] theorem read_apply (f : σ → α) (s : σ) : (read f : Exec σ ε α) s = (.ok (f s), s) := rfl
@[simp] theorem modify_apply (f : σ → σ) (s : σ) : (modify f : Exec σ ε Unit) s = (.ok (), f s) := rfl

/-! What does not touch the state. -/

theorem adapt_state (f : ε → ε') (m : Exec σ ε α) (s : σ) : (adapt f m s).2 = (m s).2 := by
  rcases h : m s with ⟨_ | e | _, s'⟩ <;> simp only [adapt, h]

theorem attempt_state (m : Exec σ ε α) (s : σ) : (attempt m s : Outcome ε' (Except ε α) × σ).2 = (m s).2 := by
  rcases h : m s with ⟨_ | e | _, s'⟩ <;> simp only [attempt, h]

theorem map_state (f : α → β) (m : Exec σ ε α) (s : σ) : ((m >>= fun a => pure (f a)) s).2 = (m s).2 := by
  rcases h : m s with ⟨_ | e | _, s'⟩
  · rw [bind_ok h]
    rfl
  · rw [bind_err h]
  · rw [bind_panic h]

/-! Success comes down to the success of the parts. -/

/-- A value of a sequence comes from a value of each part. -/
theorem bind_ok_iff {m : Exec σ ε α} {k : α → Exec σ ε β} {s s'' : σ} {b : β} :
    (m >>= k) s = (.ok b, s'') ↔ ∃ a s', m s = (.ok a, s') ∧ k a s' = (.ok b, s'') := by
  constructor
  · intro h
    rcases hm : m s with ⟨_ | e | _, s'⟩
    · rw [bind_ok hm] at h
      exact ⟨_, s', rfl, h⟩
    · rw [bind_err hm] at h
      cases h
    · rw [bind_panic hm] at h
      cases h
  · rintro ⟨a, s', hm, hk⟩
    rw [bind_ok hm, hk]

theorem run_of_value {m : Exec σ ε α} {s : σ} {a : α} (h : (m s).1.value = some a) : m s = (.ok a, (m s).2) :=
  Prod.ext (Outcome.value_eq_some.mp h) rfl

theorem pure_ok_iff {a b : α} {s s' : σ} : (pure a : Exec σ ε α) s = (.ok b, s') ↔ a = b ∧ s = s' := by
  simp

theorem read_ok_iff {f : σ → α} {b : α} {s s' : σ} :
    (read f : Exec σ ε α) s = (.ok b, s') ↔ f s = b ∧ s = s' := by
  simp

theorem failIf_ok_iff {b : Bool} {e : ε} {s s' : σ} {u : Unit} :
    failIf b e s = (.ok u, s') ↔ b = false ∧ s = s' := by
  cases b <;> simp [failIf, throw, ret]

theorem orErr_ok_iff {e : ε} {o : Option α} {s s' : σ} {a : α} :
    orErr e o s = (.ok a, s') ↔ o = some a ∧ s = s' := by
  cases o <;> simp [orErr, throw, ret]

theorem orPanic_ok_iff {o : Option α} {s s' : σ} {a : α} :
    (orPanic o : Exec σ ε α) s = (.ok a, s') ↔ o = some a ∧ s = s' := by
  cases o <;> simp [orPanic, ret]

theorem lift_ok_iff {f : ε' → ε} {r : Except ε' α} {s s' : σ} {a : α} :
    lift f r s = (.ok a, s') ↔ r = .ok a ∧ s = s' := by
  cases r <;> simp [lift, throw, ret]

theorem adapt_ok_iff {f : ε → ε'} {m : Exec σ ε α} {s s' : σ} {a : α} :
    adapt f m s = (.ok a, s') ↔ m s = (.ok a, s') := by
  rcases hm : m s with ⟨_ | e | _, t⟩ <;> simp [adapt, hm]

theorem adapt_err_iff {f : ε → ε'} {m : Exec σ ε α} {s s' : σ} {e' : ε'} :
    adapt f m s = (.err e', s') ↔ ∃ e, m s = (.err e, s') ∧ f e = e' := by
  rcases hm : m s with ⟨_ | e | _, t⟩
  · simp [adapt, hm]
  · constructor
    · intro h
      simp only [adapt, hm] at h
      cases h
      exact ⟨e, rfl, rfl⟩
    · rintro ⟨e, h, rfl⟩
      cases h
      simp only [adapt, hm]
  · simp [adapt, hm]

theorem onError_err {m : Exec σ ε α} {s s' : σ} {e : ε} (h : m s = (.err e, s')) (f : σ → σ) :
    onError m f s = (.err e, f s') := by
  rw [onError, h]

theorem onError_ok_iff {m : Exec σ ε α} {f : σ → σ} {s s' : σ} {a : α} :
    onError m f s = (.ok a, s') ↔ m s = (.ok a, s') := by
  rcases hm : m s with ⟨_ | e | _, t⟩ <;> simp [onError, hm]

theorem task_ok_iff {e : ε} {m : Exec σ ε α} {s s' : σ} {a : α} :
    task e m s = (.ok a, s') ↔ m s = (.ok a, s') := by
  rcases hm : m s with ⟨_ | e | _, t⟩ <;> simp [task, hm]

theorem attempt_ok_iff {m : Exec σ ε α} {s s' : σ} {r : Except ε α} :
    (attempt m : Exec σ ε' (Except ε α)) s = (.ok r, s') ↔
      (∃ a, r = .ok a ∧ m s = (.ok a, s')) ∨ ∃ e, r = .error e ∧ m s = (.err e, s') := by
  rcases hm : m s with ⟨a | e | _, t⟩ <;> cases r <;> simp [attempt, hm]

theorem locked_ok_iff {L : Lock σ} {e : ε} {m : Exec σ ε α} {s s' : σ} {a : α} :
    locked L e m s = (.ok a, s') ↔ L.poisoned s = false ∧ m s = (.ok a, s') := by
  cases hp : L.poisoned s with
  | true => simp [locked, hp]
  | false => rcases hm : m s with ⟨_ | e | _, t⟩ <;> simp [locked, hp, hm]

theorem zoom_ok_iff {τ : Type} {get : τ → σ} {set : σ → τ → τ} {m : Exec σ ε α} {t t' : τ} {a : α} :
    zoom get set m t = (.ok a, t') ↔ ∃ s, m (get t) = (.ok a, s) ∧ set s t = t' := by
  rcases hm : m (get t) with ⟨_ | e | _, s⟩ <;> simp [zoom, hm, and_assoc]

/-! ## What happens to the state -/

/-- However it ends, the computation relates the state before to the state after. -/
def Moves (R : σ → σ → Prop) (m : Exec σ ε α) : Prop := ∀ s, R s (m s).2

theorem Moves.of_run {R : σ → σ → Prop} {m : Exec σ ε α} (h : Moves R m) {s t : σ} {o : Outcome ε α}
    (hm : m s = (o, t)) : R s t := by
  have hs := h s
  rwa [hm] at hs

theorem Moves.mono {R R' : σ → σ → Prop} {m : Exec σ ε α} (h : Moves R m) (hr : ∀ s t, R s t → R' s t) :
    Moves R' m := fun s => hr _ _ (h s)

/-- A relation that computations can be followed along. -/
structure Frame (R : σ → σ → Prop) : Prop where
  refl : ∀ s, R s s
  trans : ∀ {s t u}, R s t → R t u → R s u

/-- The state stays as it is. -/
def Stays (s t : σ) : Prop := t = s

theorem stays_frame : Frame (Stays : σ → σ → Prop) where
  refl _ := rfl
  trans h h' := h'.trans h

/-- Any number of steps, one after the other. -/
theorem steps_frame (R : σ → σ → Prop) : Frame (Relation.ReflTransGen R) where
  refl _ := .refl
  trans h h' := h.trans h'

/-- What every step keeps is kept by a computation that takes steps only. -/
theorem Moves.keeps {R : σ → σ → Prop} {m : Exec σ ε α} (h : Moves (Relation.ReflTransGen R) m) {I : σ → Prop}
    (hstep : ∀ s t, R s t → I s → I t) {s : σ} (hs : I s) : I (m s).2 := by
  have hsteps := h s
  generalize (m s).2 = t at hsteps
  induction hsteps with
  | refl => exact hs
  | tail _ hlast ih => exact hstep _ _ hlast ih

theorem moves_modify {R : σ → σ → Prop} {f : σ → σ} (h : ∀ s, R s (f s)) :
    Moves R (modify f : Exec σ ε Unit) := h

theorem moves_adapt {R : σ → σ → Prop} {f : ε → ε'} {m : Exec σ ε α} (h : Moves R m) :
    Moves R (adapt f m) := by
  intro s
  have hs := h s
  rcases hm : m s with ⟨_ | e | _, t⟩ <;> simpa only [adapt, hm] using hs

theorem moves_task {R : σ → σ → Prop} {e : ε} {m : Exec σ ε α} (h : Moves R m) : Moves R (task e m) := by
  intro s
  have hs := h s
  rcases hm : m s with ⟨_ | e | _, t⟩ <;> simpa only [task, hm] using hs

theorem moves_attempt {R : σ → σ → Prop} {m : Exec σ ε α} (h : Moves R m) :
    Moves R (attempt m : Exec σ ε' (Except ε α)) := by
  intro s
  have hs := h s
  rcases hm : m s with ⟨_ | e | _, t⟩ <;> simpa only [attempt, hm] using hs

theorem moves_zoom {τ : Type} {R : σ → σ → Prop} {R' : τ → τ → Prop} {get : τ → σ} {set : σ → τ → τ}
    {m : Exec σ ε α} (hm : Moves R m) (h : ∀ t s, R (get t) s → R' t (set s t)) :
    Moves R' (zoom get set m) := fun t => h t _ (hm (get t))

namespace Frame
variable {R : σ → σ → Prop} (F : Frame R)
include F

theorem pure (a : α) : Moves R (pure a : Exec σ ε α) := fun s => F.refl s

theorem throw (e : ε) : Moves R (throw e : Exec σ ε α) := fun s => F.refl s

theorem failIf (b : Bool) (e : ε) : Moves R (failIf b e : Exec σ ε Unit) := by
  cases b <;> exact fun s => F.refl s

theorem read (f : σ → α) : Moves R (read f : Exec σ ε α) := fun s => F.refl s

theorem orErr (e : ε) (o : Option α) : Moves R (orErr e o : Exec σ ε α) := by
  cases o <;> exact fun s => F.refl s

theorem lift (f : ε' → ε) (r : Except ε' α) : Moves R (lift f r : Exec σ ε α) := by
  cases r <;> exact fun s => F.refl s

theorem orPanic (o : Option α) : Moves R (orPanic o : Exec σ ε α) := by
  cases o <;> exact fun s => F.refl s

theorem bind {m : Exec σ ε α} {k : α → Exec σ ε β} (hm : Moves R m) (hk : ∀ a, Moves R (k a)) :
    Moves R (m >>= k) := by
  intro s
  have h := hm s
  rcases hs : m s with ⟨a | e | _, t⟩ <;> rw [hs] at h
  · rw [bind_ok hs]
    exact F.trans h (hk a t)
  · rwa [bind_err hs]
  · rwa [bind_panic hs]

theorem onError {m : Exec σ ε α} {f : σ → σ} (hm : Moves R m) (hf : ∀ s, R s (f s)) :
    Moves R (onError m f) := by
  intro s
  have h := hm s
  rcases hs : m s with ⟨a | e | _, t⟩ <;> simp only [Exec.onError, hs] at h ⊢
  · exact h
  · exact F.trans h (hf t)
  · exact h

theorem locked {L : Lock σ} {e : ε} {m : Exec σ ε α} (hm : Moves R m) (hp : ∀ s, R s (L.poison s)) :
    Moves R (locked L e m) := by
  intro s
  have h := hm s
  unfold Exec.locked
  split_ifs
  · exact F.refl s
  · rcases hs : m s with ⟨a | e | _, t⟩ <;> simp only [hs] at h ⊢
    · exact h
    · exact h
    · exact F.trans h (hp t)

end Frame

/-- What does not succeed has changed nothing. -/
def Atomic (m : Exec σ ε α) : Prop := ∀ s, (∀ a, (m s).1 ≠ .ok a) → (m s).2 = s

theorem atomic_bind {m : Exec σ ε α} {k : α → Exec σ ε β} (hm : Moves Stays m) (hk : ∀ a, Atomic (k a)) :
    Atomic (m >>= k) := by
  intro s h
  rcases bind_cases m k s with ⟨a, s', hok, hrun⟩ | ⟨-, hstate, -⟩
  · obtain rfl : s' = s := hm.of_run hok
    rw [hrun] at h ⊢
    exact hk a _ h
  · exact hstate.trans (hm s)

theorem atomic_map {m : Exec σ ε α} (hm : Atomic m) (f : α → β) : Atomic (m >>= fun a => pure (f a)) := by
  intro s h
  rcases bind_cases m (fun a => pure (f a)) s with ⟨a, s', -, hrun⟩ | ⟨hno, hstate, -⟩
  · rw [hrun] at h
    exact absurd rfl (h (f a))
  · rw [hstate]
    apply hm
    intro a ha
    exact hno a _ (Prod.ext ha rfl)

theorem atomic_modify {m : Exec σ ε α} (hm : Atomic m) (f : σ → σ) : Atomic (m >>= fun _ => modify f) := by
  intro s h
  rcases bind_cases m (fun _ => modify f) s with ⟨a, s', -, hrun⟩ | ⟨hno, hstate, -⟩
  · rw [hrun] at h
    exact absurd rfl (h ())
  · rw [hstate]
    exact hm s fun a ha => hno a _ (Prod.ext ha rfl)

theorem atomic_adapt {f : ε → ε'} {m : Exec σ ε α} (hm : Atomic m) : Atomic (adapt f m) := by
  intro s h
  have hs := hm s
  rcases hrun : m s with ⟨a | e | _, t⟩ <;> simp only [adapt, hrun] at h hs ⊢
  · exact absurd rfl (h a)
  · exact hs nofun
  · exact hs nofun

/-- An atomic computation without panic: it succeeds, or it fails and has done nothing. -/
theorem Atomic.cases {m : Exec σ ε α} (hm : Atomic m) (hcalm : ∀ s, (m s).1 ≠ .panic) (s : σ) :
    (∃ a t, m s = (.ok a, t)) ∨ ∃ e, m s = (.err e, s) := by
  have hs := hm s
  have hc := hcalm s
  rcases hrun : m s with ⟨a | e | _, t⟩ <;> rw [hrun] at hs hc
  · exact .inl ⟨a, t, rfl⟩
  · obtain rfl : t = s := hs nofun
    exact .inr ⟨e, rfl⟩
  · exact absurd rfl hc

/-! ## How it ends -/

/-- From a state of `I` the computation ends with no error outside `P`, and unless it
panics the state is again in `I`. -/
def Safe (I : σ → Prop) (P : ε → Prop) (m : Exec σ ε α) : Prop :=
  ∀ s, I s → (∀ e, (m s).1 = .err e → P e) ∧ ((m s).1 ≠ .panic → I (m s).2)

section
variable {I : σ → Prop} {P : ε → Prop}

theorem safe_pure (a : α) : Safe I P (pure a : Exec σ ε α) := fun _ hs => ⟨nofun, fun _ => hs⟩

theorem safe_throw {e : ε} (he : P e) : Safe I P (throw e : Exec σ ε α) := by
  intro s hs
  refine ⟨?_, fun _ => hs⟩
  intro e' h
  cases h
  exact he

theorem safe_failIf (b : Bool) {e : ε} (he : P e) : Safe I P (failIf b e : Exec σ ε Unit) := by
  cases b with
  | false => exact safe_pure ()
  | true => exact safe_throw he

theorem safe_read (f : σ → α) : Safe I P (read f : Exec σ ε α) := fun _ hs => ⟨nofun, fun _ => hs⟩

theorem safe_orErr {e : ε} (he : P e) (o : Option α) : Safe I P (orErr e o : Exec σ ε α) := by
  cases o with
  | none => exact safe_throw he
  | some a => exact safe_pure a

theorem safe_lift {f : ε' → ε} (hf : ∀ e, P (f e)) (r : Except ε' α) : Safe I P (lift f r : Exec σ ε α) := by
  cases r with
  | error e => exact safe_throw (hf e)
  | ok a => exact safe_pure a

theorem safe_orPanic (o : Option α) : Safe I P (orPanic o : Exec σ ε α) := by
  cases o with
  | none => exact fun _ _ => ⟨nofun, fun h => absurd rfl h⟩
  | some a => exact safe_pure a

theorem safe_bind {m : Exec σ ε α} {k : α → Exec σ ε β} (hm : Safe I P m) (hk : ∀ a, Safe I P (k a)) :
    Safe I P (m >>= k) := by
  intro s hs
  obtain ⟨herr, hkeep⟩ := hm s hs
  rcases h : m s with ⟨a | e | _, t⟩ <;> rw [h] at herr hkeep
  · rw [bind_ok h]
    exact hk a t (hkeep nofun)
  · rw [bind_err h]
    refine ⟨?_, fun _ => hkeep nofun⟩
    intro e' he
    cases he
    exact herr e rfl
  · rw [bind_panic h]
    exact ⟨nofun, fun hp => absurd rfl hp⟩

theorem safe_locked {L : Lock σ} {e : ε} {m : Exec σ ε α} (hfree : ∀ s, I s → L.poisoned s = false)
    (hm : Safe I P m) : Safe I P (locked L e m) := by
  intro s hs
  obtain ⟨herr, hkeep⟩ := hm s hs
  rw [locked, if_neg (by simp [hfree s hs])]
  rcases h : m s with ⟨a | e' | _, t⟩ <;> rw [h] at herr hkeep
  · exact ⟨herr, hkeep⟩
  · exact ⟨herr, hkeep⟩
  · exact ⟨nofun, fun hp => absurd rfl hp⟩

/-- Also where the lock may be poisoned, if that error is allowed. -/
theorem safe_locked_any {L : Lock σ} {e : ε} {m : Exec σ ε α} (he : P e) (hm : Safe I P m) :
    Safe I P (locked L e m) := by
  intro s hs
  obtain ⟨herr, hkeep⟩ := hm s hs
  unfold locked
  split_ifs
  · exact safe_throw he s hs
  · rcases h : m s with ⟨a | e' | _, t⟩ <;> rw [h] at herr hkeep
    · exact ⟨herr, hkeep⟩
    · exact ⟨herr, hkeep⟩
    · exact ⟨by simp, fun hp => absurd rfl hp⟩

theorem safe_attempt {P : ε' → Prop} {m : Exec σ ε α} :
    Safe (fun _ => True) P (attempt m : Exec σ ε' (Except ε α)) := by
  intro s _
  refine ⟨?_, fun _ => trivial⟩
  rcases h : m s with ⟨a | e | _, t⟩ <;> simp [attempt, h]

theorem safe_convert {Q : ε' → Prop} {f : ε' → ε} {m : Exec σ ε' α} (hm : Safe I Q m)
    (hf : ∀ e, Q e → P (f e)) : Safe I P (adapt f m) := by
  intro s hs
  obtain ⟨herr, hkeep⟩ := hm s hs
  rcases h : m s with ⟨a | e | _, t⟩ <;> rw [h] at herr hkeep <;> simp only [adapt, h]
  · exact ⟨nofun, fun _ => hkeep (by simp)⟩
  · refine ⟨?_, fun _ => hkeep (by simp)⟩
    intro e' he
    cases he
    exact hf e (herr e rfl)
  · exact ⟨nofun, fun hp => absurd rfl hp⟩

theorem safe_adapt {f : ε' → ε} {m : Exec σ ε' α} (hm : Moves Stays m) (hf : ∀ e, P (f e)) :
    Safe I P (adapt f m) := by
  intro s hs
  have hstay := hm s
  rcases h : m s with ⟨a | e | _, t⟩ <;> rw [h] at hstay <;> obtain rfl := hstay <;>
    simp only [adapt, h]
  · exact ⟨nofun, fun _ => hs⟩
  · refine ⟨?_, fun _ => hs⟩
    intro e' he
    cases he
    exact hf e
  · exact ⟨nofun, fun hp => absurd rfl hp⟩

/-- A part of the state that `I` does not look at. -/
theorem safe_zoom {τ ε' : Type} {J : τ → Prop} {Q : ε' → Prop} {get : τ → σ} {set : σ → τ → τ} {f : ε → ε'}
    (m : Exec σ ε α) (hset : ∀ s t, J t → J (set s t)) (hf : ∀ e, Q (f e)) :
    Safe J Q (adapt f (zoom get set m)) := by
  intro t ht
  simp only [adapt, zoom]
  rcases m (get t) with ⟨a | e | _, s⟩
  · exact ⟨nofun, fun _ => hset s t ht⟩
  · refine ⟨?_, fun _ => hset s t ht⟩
    intro e' h
    cases h
    exact hf e
  · exact ⟨nofun, fun h => absurd rfl h⟩

end

/-- The computation never panics. -/
def Calm (m : Exec σ ε α) : Prop := ∀ s, (m s).1 ≠ .panic

theorem calm_pure (a : α) : Calm (pure a : Exec σ ε α) := fun _ => nofun

theorem calm_throw (e : ε) : Calm (throw e : Exec σ ε α) := fun _ => nofun

theorem calm_failIf (b : Bool) (e : ε) : Calm (failIf b e : Exec σ ε Unit) := by
  cases b <;> exact fun _ => nofun

theorem calm_read (f : σ → α) : Calm (read f : Exec σ ε α) := fun _ => nofun

theorem calm_orErr (e : ε) (o : Option α) : Calm (orErr e o : Exec σ ε α) := by
  cases o <;> exact fun _ => nofun

theorem calm_lift (f : ε' → ε) (r : Except ε' α) : Calm (lift f r : Exec σ ε α) := by
  cases r <;> exact fun _ => nofun

theorem calm_bind {m : Exec σ ε α} {k : α → Exec σ ε β} (hm : Calm m) (hk : ∀ a, Calm (k a)) :
    Calm (m >>= k) := by
  intro s
  have h := hm s
  rcases hs : m s with ⟨a | e | _, t⟩ <;> rw [hs] at h
  · rw [bind_ok hs]
    exact hk a t
  · rw [bind_err hs]
    exact nofun
  · exact absurd rfl h

theorem calm_adapt {f : ε → ε'} {m : Exec σ ε α} (hm : Calm m) : Calm (adapt f m) := by
  intro s
  have h := hm s
  rcases hs : m s with ⟨a | e | _, t⟩ <;> rw [hs] at h <;> simp only [adapt, hs]
  · exact nofun
  · exact nofun
  · exact absurd rfl h

theorem calm_zoom {τ : Type} {get : τ → σ} {set : σ → τ → τ} {m : Exec σ ε α} (hm : Calm m) :
    Calm (zoom get set m) := fun t => hm (get t)

/-- A computation without effect and without panic: its value, or its error. -/
theorem stays_cases {m : Exec σ ε α} {s : σ} {Q : Prop} (hstay : Moves Stays m) (hcalm : Calm m)
    (hok : (∃ a, m s = (.ok a, s)) ↔ Q) :
    (Q ∧ ∃ a, m s = (.ok a, s)) ∨ (¬ Q ∧ ∃ e, m s = (.err e, s)) := by
  have hs := hstay s
  rcases h : m s with ⟨a | e | _, t⟩ <;> rw [h] at hs <;> obtain rfl := hs
  · exact .inl ⟨hok.mp ⟨a, h⟩, a, rfl⟩
  · refine .inr ⟨?_, e, rfl⟩
    intro hq
    obtain ⟨a, ha⟩ := hok.mpr hq
    rw [h] at ha
    cases ha
  · exact absurd (congrArg Prod.fst h) (hcalm _)

theorem calm_locked {L : Lock σ} {e : ε} {m : Exec σ ε α} (hm : Calm m) : Calm (locked L e m) := by
  intro s
  have h := hm s
  unfold locked
  split_ifs
  · exact nofun
  · rcases hs : m s with ⟨a | e | _, t⟩ <;> rw [hs] at h
    · exact nofun
    · exact nofun
    · exact absurd rfl h

/-- A value the computation ends with is one of `P`, an error one of `Q`. -/
def Ends (P : α → Prop) (Q : ε → Prop) (m : Exec σ ε α) : Prop :=
  ∀ s, (∀ a, (m s).1 = .ok a → P a) ∧ ∀ e, (m s).1 = .err e → Q e

section
variable {P : α → Prop} {Q : ε → Prop}

theorem ends_any (m : Exec σ ε α) : Ends (fun _ => True) (fun _ => True) m :=
  fun _ => ⟨fun _ _ => trivial, fun _ _ => trivial⟩

theorem ends_pure {a : α} (ha : P a) : Ends P Q (pure a : Exec σ ε α) := by
  intro s
  refine ⟨?_, nofun⟩
  intro b h
  cases h
  exact ha

theorem ends_throw {e : ε} (he : Q e) : Ends P Q (throw e : Exec σ ε α) := by
  intro s
  refine ⟨nofun, ?_⟩
  intro e' h
  cases h
  exact he

theorem ends_lift {f : ε' → ε} {r : Except ε' α} (hok : ∀ a, r = .ok a → P a) (herr : ∀ e, Q (f e)) :
    Ends P Q (lift f r : Exec σ ε α) := by
  cases r with
  | ok a => exact ends_pure (hok a rfl)
  | error e => exact ends_throw (herr e)

theorem ends_bind {R : α → Prop} {P : β → Prop} {m : Exec σ ε α} {k : α → Exec σ ε β} (hm : Ends R Q m)
    (hk : ∀ a, R a → Ends P Q (k a)) : Ends P Q (m >>= k) := by
  intro s
  obtain ⟨hok, herr⟩ := hm s
  rcases hs : m s with ⟨a | e | _, t⟩ <;> rw [hs] at hok herr
  · rw [bind_ok hs]
    exact hk a (hok a rfl) t
  · rw [bind_err hs]
    refine ⟨nofun, ?_⟩
    intro e' h
    cases h
    exact herr e rfl
  · rw [bind_panic hs]
    exact ⟨nofun, nofun⟩

theorem ends_adapt {Q' : ε' → Prop} {f : ε → ε'} {m : Exec σ ε α} (hm : Ends P Q m) (hf : ∀ e, Q e → Q' (f e)) :
    Ends P Q' (adapt f m) := by
  intro s
  obtain ⟨hok, herr⟩ := hm s
  refine ⟨?_, ?_⟩
  · intro a h
    exact hok a (congrArg Prod.fst (adapt_ok_iff.mp (Prod.ext h rfl)))
  · intro e' h
    obtain ⟨e, hrun, rfl⟩ := adapt_err_iff.mp (Prod.ext h rfl : adapt f m s = (.err e', (adapt f m s).2))
    exact hf e (herr e (congrArg Prod.fst hrun))

theorem ends_attempt {Q' : ε' → Prop} {m : Exec σ ε α} (hm : Ends P Q m) :
    Ends (fun r => (∀ a, r = .ok a → P a) ∧ ∀ e, r = .error e → Q e) Q'
      (attempt m : Exec σ ε' (Except ε α)) := by
  intro s
  obtain ⟨hok, herr⟩ := hm s
  rcases hs : m s with ⟨a | e | _, t⟩ <;> rw [hs] at hok herr <;> simp only [attempt, hs]
  · refine ⟨?_, nofun⟩
    intro r h
    cases h
    exact ⟨fun b hb => hok b (congrArg Outcome.ok (Except.ok.inj hb)), nofun⟩
  · refine ⟨?_, nofun⟩
    intro r h
    cases h
    exact ⟨nofun, fun e' he => herr e' (congrArg Outcome.err (Except.error.inj he))⟩
  · exact ⟨nofun, nofun⟩

end

end Exec
end FipsDropbox
