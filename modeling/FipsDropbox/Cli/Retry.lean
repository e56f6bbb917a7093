import FipsDropbox.Cli.KekFile
import FipsDropbox.Storage.Passwords

/-!
# A bootstrap that fails

The command writes the KEK file in its middle, and refuses to run where there is one.
What fails before leaves nothing behind; what fails after leaves a KEK without an admin.
-/
namespace FipsDropbox.Cli
open Utf8 Exec Crypto Storage

section
variable (host : InitHost) (B : Bcrypt)

/-- `run` up to the KEK. -/
def prepare (args : List Text) : Exec Machine InitError (Text × Option Text) := do
  let given ← lift id (parseArgs args)
  initStep host .loadConfig
  initStep host .kekParent
  initStep host .dbParent
  initStep host .auditParent
  initStep host .blobsDir
  let taken ← read fun m => m.kekFile.isSome
  failIf taken .kekExists
  pure given

def enter (password : Option Text) : Exec Machine InitError Text := do
  openStore host
  choosePassword host password

theorem run_eq (args : List Text) :
    run host B args = prepare host args >>= fun given => onKekFile (KekManager.init host) >>= fun _ =>
      enter host given.2 >>= fun password => onStore (Users.create host.toEnv B given.1 .admin password) := by
  simp only [run, prepare, enter, bind_assoc, pure_bind]

def earlySteps : List InitStep := [.loadConfig, .kekParent, .dbParent, .auditParent, .blobsDir]

def lateSteps : List InitStep := [.openBlobsDir, .openDbParent, .openDatabase, .applySchema]

/-- The password is an argument, or twelve bytes typed twice. -/
def Accepted : Option Text → Text → Prop
  | some p, password => p = password
  | none, password => host.typed = some password ∧ 12 ≤ (encode password).length ∧ host.typedAgain = some password

/-- The command gets to the write of the KEK file. -/
structure ReachesWrite (args : List Text) (given : Text × Option Text) (kek : Octets 32) : Prop where
  arguments : parseArgs args = .ok given
  early : ∀ step ∈ earlySteps, host.failsAt step = false
  key : host.kek = some kek
  sealing : host.failsAt .protectKek = false ∧ host.failsAt .kekFileParent = false

structure Finishes (given : Text × Option Text) (s : Store) : Prop where
  late : ∀ step ∈ lateSteps, host.failsAt step = false
  password : ∃ password, Accepted host given.2 password
  account : Users.Creatable host.toEnv s given.1

end

section
variable {host : InitHost} {B : Bcrypt} {args : List Text} {m : Machine}

theorem stays_prepare : Moves Stays (prepare host args) := by
  have F := stays_frame (σ := Machine)
  exact F.bind (F.lift _ _) fun _ => F.bind (F.failIf _ _) fun _ => F.bind (F.failIf _ _) fun _ =>
    F.bind (F.failIf _ _) fun _ => F.bind (F.failIf _ _) fun _ => F.bind (F.failIf _ _) fun _ =>
    F.bind (F.read _) fun _ => F.bind (F.failIf _ _) fun _ => F.pure _

theorem prepare_ok_iff {given : Text × Option Text} (hfree : m.kekFile = none) :
    prepare host args m = (.ok given, m) ↔
      parseArgs args = .ok given ∧ ∀ step ∈ earlySteps, host.failsAt step = false := by
  simp only [prepare, bind_ok_iff, lift_ok_iff, initStep_ok_iff, read_ok_iff, failIf_ok_iff, pure_ok_iff]
  constructor
  · rintro ⟨_, _, ⟨hargs, rfl⟩, _, _, ⟨h1, rfl⟩, _, _, ⟨h2, rfl⟩, _, _, ⟨h3, rfl⟩, _, _, ⟨h4, rfl⟩, _, _,
      ⟨h5, rfl⟩, _, _, ⟨-, rfl⟩, _, _, ⟨-, rfl⟩, rfl, -⟩
    exact ⟨hargs, by simp [earlySteps, h1, h2, h3, h4, h5]⟩
  · rintro ⟨hargs, hearly⟩
    simp only [earlySteps, List.forall_mem_cons, List.not_mem_nil, false_imp_iff, implies_true, and_true] at hearly
    obtain ⟨h1, h2, h3, h4, h5⟩ := hearly
    exact ⟨given, m, ⟨hargs, rfl⟩, (), m, ⟨h1, rfl⟩, (), m, ⟨h2, rfl⟩, (), m, ⟨h3, rfl⟩, (), m, ⟨h4, rfl⟩, (), m,
      ⟨h5, rfl⟩, _, m, ⟨rfl, rfl⟩, (), m, ⟨by rw [hfree]; rfl, rfl⟩, rfl, rfl⟩

theorem prepare_cases (host : InitHost) (args : List Text) (hfree : m.kekFile = none) :
    (∃ given, parseArgs args = .ok given ∧ (∀ step ∈ earlySteps, host.failsAt step = false) ∧
      prepare host args m = (.ok given, m)) ∨
    ((∀ given, parseArgs args = .ok given → ∃ step ∈ earlySteps, host.failsAt step = true) ∧
      ∃ e, prepare host args m = (.err e, m)) := by
  have hcalm : Calm (prepare host args) :=
    calm_bind (calm_lift _ _) fun _ => calm_bind (calm_failIf _ _) fun _ => calm_bind (calm_failIf _ _) fun _ =>
    calm_bind (calm_failIf _ _) fun _ => calm_bind (calm_failIf _ _) fun _ => calm_bind (calm_failIf _ _) fun _ =>
    calm_bind (calm_read _) fun _ => calm_bind (calm_failIf _ _) fun _ => calm_pure _
  rcases stays_cases (s := m) stays_prepare hcalm Iff.rfl with ⟨⟨given, hrun⟩, -⟩ | ⟨hno, e, hrun⟩
  · obtain ⟨hargs, hearly⟩ := (prepare_ok_iff hfree).mp hrun
    exact .inl ⟨given, hargs, hearly, hrun⟩
  · refine .inr ⟨?_, e, hrun⟩
    intro given hargs
    by_contra hnone
    refine hno ⟨given, (prepare_ok_iff hfree).mpr ⟨hargs, ?_⟩⟩
    intro step hstep
    exact Bool.eq_false_iff.mpr fun htrue => hnone ⟨step, hstep, htrue⟩

theorem promptPassword_ok_iff {password : Text} :
    promptPassword host m = (.ok password, m) ↔
      host.typed = some password ∧ 12 ≤ (encode password).length ∧ host.typedAgain = some password := by
  simp only [promptPassword, bind_ok_iff, orErr_ok_iff, failIf_ok_iff, pure_ok_iff, decide_eq_false_iff_not, not_lt,
    ne_eq, not_not]
  constructor
  · rintro ⟨p1, _, ⟨htyped, rfl⟩, _, _, ⟨hlen, rfl⟩, p2, _, ⟨hagain, rfl⟩, _, _, ⟨rfl, rfl⟩, rfl, -⟩
    exact ⟨htyped, hlen, hagain⟩
  · rintro ⟨htyped, hlen, hagain⟩
    exact ⟨password, m, ⟨htyped, rfl⟩, (), m, ⟨hlen, rfl⟩, password, m, ⟨hagain, rfl⟩, (), m, ⟨rfl, rfl⟩, rfl, rfl⟩

theorem openStore_ok_iff : openStore host m = (.ok (), m) ↔ ∀ step ∈ lateSteps, host.failsAt step = false := by
  simp only [openStore, bind_ok_iff, initStep_ok_iff, lateSteps, List.forall_mem_cons, List.not_mem_nil, false_imp_iff,
    implies_true, and_true]
  constructor
  · rintro ⟨_, _, ⟨h1, rfl⟩, _, _, ⟨h2, rfl⟩, _, _, ⟨h3, rfl⟩, h4, -⟩
    exact ⟨h1, h2, h3, h4⟩
  · rintro ⟨h1, h2, h3, h4⟩
    exact ⟨(), m, ⟨h1, rfl⟩, (), m, ⟨h2, rfl⟩, (), m, ⟨h3, rfl⟩, h4, rfl⟩

theorem enter_ok_iff {given : Option Text} {password : Text} :
    enter host given m = (.ok password, m) ↔
      (∀ step ∈ lateSteps, host.failsAt step = false) ∧ Accepted host given password := by
  have hchoose : choosePassword host given m = (.ok password, m) ↔ Accepted host given password := by
    cases given with
    | some p => exact pure_ok_iff.trans (and_iff_left rfl)
    | none => exact promptPassword_ok_iff
  rw [enter, bind_ok_iff, ← hchoose, ← openStore_ok_iff]
  constructor
  · rintro ⟨_, m', hopen, hrest⟩
    obtain rfl := openStore_ok hopen
    exact ⟨hopen, hrest⟩
  · rintro ⟨hopen, hrest⟩
    exact ⟨(), m, hopen, hrest⟩

theorem enter_cases (host : InitHost) (given : Option Text) (m : Machine) :
    (((∀ step ∈ lateSteps, host.failsAt step = false) ∧ ∃ password, Accepted host given password) ∧
      ∃ password, enter host given m = (.ok password, m)) ∨
    (¬ ((∀ step ∈ lateSteps, host.failsAt step = false) ∧ ∃ password, Accepted host given password) ∧
      ∃ e, enter host given m = (.err e, m)) := by
  have F := stays_frame (σ := Machine)
  have hopenStays : Moves Stays (openStore host) := F.bind (F.failIf _ _) fun _ => F.bind (F.failIf _ _) fun _ =>
    F.bind (F.failIf _ _) fun _ => F.failIf _ _
  have hopenCalm : Calm (openStore host) := calm_bind (calm_failIf _ _) fun _ => calm_bind (calm_failIf _ _) fun _ =>
    calm_bind (calm_failIf _ _) fun _ => calm_failIf _ _
  have hchoose : Moves Stays (choosePassword host given) ∧ Calm (choosePassword host given) := by
    cases given with
    | some p => exact ⟨F.pure p, calm_pure p⟩
    | none =>
        exact ⟨F.bind (F.orErr _ _) fun _ => F.bind (F.failIf _ _) fun _ => F.bind (F.orErr _ _) fun _ =>
          F.bind (F.failIf _ _) fun _ => F.pure _, calm_bind (calm_orErr _ _) fun _ =>
          calm_bind (calm_failIf _ _) fun _ => calm_bind (calm_orErr _ _) fun _ =>
          calm_bind (calm_failIf _ _) fun _ => calm_pure _⟩
  refine stays_cases (F.bind hopenStays fun _ => hchoose.1) (calm_bind hopenCalm fun _ => hchoose.2) ?_
  simp only [enter_ok_iff, exists_and_left]

theorem generate_ok_iff {file : Option Bytes} {kek : Octets 32} :
    KekManager.generate host file = (.ok kek, file) ↔
      host.kek = some kek ∧ host.failsAt .protectKek = false ∧ host.failsAt .kekFileParent = false := by
  simp only [KekManager.generate, bind_ok_iff, orErr_ok_iff, failIf_ok_iff, pure_ok_iff]
  constructor
  · rintro ⟨_, _, ⟨hkek, rfl⟩, _, _, ⟨hprotect, rfl⟩, _, _, ⟨hparent, rfl⟩, rfl, -⟩
    exact ⟨hkek, hprotect, hparent⟩
  · rintro ⟨hkek, hprotect, hparent⟩
    exact ⟨kek, file, ⟨hkek, rfl⟩, (), file, ⟨hprotect, rfl⟩, (), file, ⟨hparent, rfl⟩, rfl, rfl⟩

/-- What `KekManager::init` makes of no file. -/
theorem kekInit_cases (host : InitHost) :
    ((∀ kek, KekManager.generate host none ≠ (.ok kek, none)) ∧ ∃ e, KekManager.init host none = (.err e, none)) ∨
    ∃ kek, KekManager.generate host none = (.ok kek, none) ∧
      ((host.failsAt .writeKek = false ∧ KekManager.init host none = (.ok kek, some (host.protect kek))) ∨
      (host.failsAt .writeKek = true ∧
        KekManager.init host none = (.err .io, host.partialKek.map fun n => (host.protect kek).take n))) := by
  have hcheck : KekManager.checkFree none = (.ok (), none) := rfl
  rw [KekManager.init_eq, bind_ok hcheck]
  rcases KekManager.generate_cases host none with ⟨kek, hgen⟩ | ⟨e, hgen⟩
  · refine .inr ⟨kek, hgen, ?_⟩
    rw [bind_ok hgen]
    cases hw : host.failsAt .writeKek with
    | false =>
        have hwrite : writeKek host (host.protect kek) none = (.ok (), some (host.protect kek)) := by
          rw [writeKek, hw]
          rfl
        exact .inl ⟨rfl, bind_ok hwrite _⟩
    | true =>
        have hwrite : writeKek host (host.protect kek) none =
            (.err .io, host.partialKek.map fun n => (host.protect kek).take n) := by
          rw [writeKek, hw, if_pos rfl]
          cases host.partialKek <;> rfl
        exact .inr ⟨rfl, bind_err hwrite _⟩
  · refine .inl ⟨?_, e, bind_err hgen _⟩
    intro kek hok
    cases hok.symm.trans hgen

theorem onKekFile_err {α : Type} {k : Exec (Option Bytes) KekError α} {e : KekError} {file : Option Bytes}
    (h : k m.kekFile = (.err e, file)) : onKekFile k m = (.err (.kek e), { m with kekFile := file }) := by
  simp only [onKekFile, adapt, zoom, h]

theorem onKekFile_ok {α : Type} {k : Exec (Option Bytes) KekError α} {a : α} {file : Option Bytes}
    (h : k m.kekFile = (.ok a, file)) : onKekFile k m = (.ok a, { m with kekFile := file }) := by
  simp only [onKekFile, adapt, zoom, h]

theorem finish_cases (host : InitHost) (B : Bcrypt) (given : Text × Option Text) (m : Machine) :
    (Finishes host given m.store ∧ ∃ user s', (enter host given.2 >>= fun password =>
        onStore (Users.create host.toEnv B given.1 .admin password)) m = (.ok user, { m with store := s' })) ∨
    (¬ Finishes host given m.store ∧ ∃ e, (enter host given.2 >>= fun password =>
        onStore (Users.create host.toEnv B given.1 .admin password)) m = (.err e, m)) := by
  rcases enter_cases host given.2 m with ⟨⟨hlate, hpassword⟩, password, henter⟩ | ⟨hno, e, henter⟩
  · rw [bind_ok henter]
    rcases Users.create_cases host.toEnv B given.1 .admin password m.store with
      ⟨haccount, user, s', hcreate⟩ | ⟨hno, e, hcreate⟩
    · refine .inl ⟨⟨hlate, hpassword, haccount⟩, user, s', ?_⟩
      simp only [onStore, adapt, zoom, hcreate]
    · refine .inr ⟨fun h => hno h.account, .storage e, ?_⟩
      simp only [onStore, adapt, zoom, hcreate]
  · exact .inr ⟨fun h => hno ⟨h.late, h.password⟩, e, bind_err henter _⟩

/-- Where there is no KEK file, the command fails before it is written, or in writing it, or
after it, or succeeds. -/
theorem run_cases (host : InitHost) (B : Bcrypt) (args : List Text) (hfree : m.kekFile = none) :
    ((∀ given kek, ¬ ReachesWrite host args given kek) ∧ ∃ e, run host B args m = (.err e, m)) ∨
    ∃ given kek, ReachesWrite host args given kek ∧
      ((host.failsAt .writeKek = true ∧ ∃ e, run host B args m =
          (.err e, { m with kekFile := host.partialKek.map fun n => (host.protect kek).take n })) ∨
      (host.failsAt .writeKek = false ∧ ¬ Finishes host given m.store ∧ ∃ e, run host B args m =
          (.err e, { m with kekFile := some (host.protect kek) })) ∨
      (host.failsAt .writeKek = false ∧ Finishes host given m.store ∧ ∃ user s', run host B args m =
          (.ok user, ⟨some (host.protect kek), s'⟩))) := by
  rw [run_eq]
  rcases prepare_cases host args hfree with ⟨given, hargs, hearly, hprep⟩ | ⟨hno, e, hprep⟩
  · rw [bind_ok hprep]
    have hinit := kekInit_cases host
    rw [← hfree] at hinit
    rcases hinit with ⟨hno, e, hinit⟩ | ⟨kek, hgen, ⟨hw, hinit⟩ | ⟨hw, hinit⟩⟩
    · refine .inl ⟨?_, .kek e, ?_⟩
      · intro given' kek h
        exact hno kek (generate_ok_iff.mpr ⟨h.key, h.sealing⟩)
      · exact bind_err (onKekFile_err hinit) _
    · obtain ⟨hkek, hsealing⟩ := generate_ok_iff.mp hgen
      refine .inr ⟨given, kek, ⟨hargs, hearly, hkek, hsealing⟩, .inr ?_⟩
      rw [bind_ok (onKekFile_ok hinit)]
      rcases finish_cases host B given { m with kekFile := some (host.protect kek) } with
        ⟨hfin, user, s', hrun⟩ | ⟨hfin, e, hrun⟩
      · exact .inr ⟨hw, hfin, user, s', hrun⟩
      · exact .inl ⟨hw, hfin, e, hrun⟩
    · obtain ⟨hkek, hsealing⟩ := generate_ok_iff.mp hgen
      exact .inr ⟨given, kek, ⟨hargs, hearly, hkek, hsealing⟩, .inl ⟨hw, _, bind_err (onKekFile_err hinit) _⟩⟩
  · refine .inl ⟨?_, e, bind_err hprep _⟩
    intro given kek h
    obtain ⟨step, hstep, hfails⟩ := hno given h.arguments
    rw [h.early step hstep] at hfails
    cases hfails

theorem ReachesWrite.unique {given given' : Text × Option Text} {kek kek' : Octets 32}
    (h : ReachesWrite host args given kek) (h' : ReachesWrite host args given' kek') : given = given' ∧ kek = kek' := by
  have hgiven := h.arguments.symm.trans h'.arguments
  cases hgiven
  exact ⟨rfl, Option.some.inj (h.key.symm.trans h'.key)⟩

/-- A run that fails leaves no KEK file, so that one with good input succeeds. -/
def Retriable (host : InitHost) (B : Bcrypt) (args : List Text) (m : Machine) : Prop :=
  ∀ e m', run host B args m = (.err e, m') → m'.kekFile = none ∧
    ∀ (host' : InitHost) args' given kek, ReachesWrite host' args' given kek → host'.failsAt .writeKek = false →
      Finishes host' given m'.store → ∃ user m'', run host' B args' m' = (.ok user, m'')

/-- The write of the KEK file begins, and then it or something after it fails. -/
def Strands (host : InitHost) (args : List Text) (s : Store) : Prop :=
  ∃ given kek, ReachesWrite host args given kek ∧
    ((host.failsAt .writeKek = true ∧ host.partialKek.isSome = true) ∨
      (host.failsAt .writeKek = false ∧ ¬ Finishes host given s))

theorem run_succeeds (hfree : m.kekFile = none) {given : Text × Option Text} {kek : Octets 32}
    (hreaches : ReachesWrite host args given kek) (hwrites : host.failsAt .writeKek = false)
    (hfinishes : Finishes host given m.store) : ∃ user m', run host B args m = (.ok user, m') := by
  rcases run_cases host B args hfree with ⟨hno, -⟩ | ⟨given', kek', hreaches', hcases⟩
  · exact absurd hreaches (hno given kek)
  · obtain ⟨rfl, rfl⟩ := hreaches.unique hreaches'
    rcases hcases with ⟨hw, -⟩ | ⟨-, hno, -⟩ | ⟨-, -, user, s', hrun⟩
    · rw [hwrites] at hw
      cases hw
    · exact absurd hfinishes hno
    · exact ⟨user, _, hrun⟩

/-- A bootstrap without a KEK file can be retried after a failure exactly when it does not
fail once it has begun to write the file. -/
theorem retriable_iff (hfree : m.kekFile = none) : Retriable host B args m ↔ ¬ Strands host args m.store := by
  rcases run_cases host B args hfree with ⟨hno, e, hrun⟩ | ⟨given, kek, hreaches, hcases⟩
  · refine iff_of_true ?_ ?_
    · intro e' m' h
      cases hrun.symm.trans h
      exact ⟨hfree, fun host' args' given kek => run_succeeds hfree⟩
    · rintro ⟨given, kek, hreaches, -⟩
      exact hno given kek hreaches
  · rcases hcases with ⟨hw, e, hrun⟩ | ⟨hw, hno, e, hrun⟩ | ⟨hw, hfin, user, s', hrun⟩
    · cases hbegun : host.partialKek with
      | none =>
          rw [hbegun] at hrun
          refine iff_of_true ?_ ?_
          · intro e' m' h
            cases hrun.symm.trans h
            exact ⟨rfl, fun host' args' given kek => run_succeeds rfl⟩
          · rintro ⟨_, _, -, ⟨-, hsome⟩ | ⟨hok, -⟩⟩
            · rw [hbegun] at hsome
              cases hsome
            · rw [hw] at hok
              cases hok
      | some n =>
          rw [hbegun] at hrun
          refine iff_of_false ?_ ?_
          · intro h
            cases (h e _ hrun).1
          · exact not_not.mpr ⟨given, kek, hreaches, .inl ⟨hw, by rw [hbegun]; rfl⟩⟩
    · refine iff_of_false ?_ ?_
      · intro h
        cases (h e _ hrun).1
      · exact not_not.mpr ⟨given, kek, hreaches, .inr ⟨hw, hno⟩⟩
    · refine iff_of_true ?_ ?_
      · intro e' m' h
        cases hrun.symm.trans h
      · rintro ⟨given', kek', hreaches', ⟨hf, -⟩ | ⟨-, hno⟩⟩
        · rw [hw] at hf
          cases hf
        · obtain ⟨rfl, -⟩ := hreaches.unique hreaches'
          exact hno hfin

theorem run_refused (htaken : m.kekFile.isSome = true) (user : User) (m' : Machine) :
    run host B args m ≠ (.ok user, m') := by
  intro h
  rw [run_eq] at h
  obtain ⟨given, m1, hprep, -⟩ := bind_ok_iff.mp h
  simp only [prepare, bind_ok_iff, lift_ok_iff, initStep_ok_iff, read_ok_iff, failIf_ok_iff, pure_ok_iff] at hprep
  obtain ⟨_, _, ⟨-, rfl⟩, _, _, ⟨-, rfl⟩, _, _, ⟨-, rfl⟩, _, _, ⟨-, rfl⟩, _, _, ⟨-, rfl⟩, _, _, ⟨-, rfl⟩, taken, _,
    ⟨rfl, rfl⟩, _, _, ⟨hfree, -⟩, -⟩ := hprep
  rw [htaken] at hfree
  cases hfree

end

def retryArgs : List Text := ["--admin-email".toList, "admin@example.com".toList]

def lockedHost : InitHost :=
  { KekManager.racingHost 53 with
    failsAt := fun step => match step with
      | .auditParent => true
      | _ => false }

theorem retriable_locked : ¬ Strands lockedHost retryArgs .fresh ∧ Retriable lockedHost .reference retryArgs ⟨none, .fresh⟩ := by
  have hnot : ¬ Strands lockedHost retryArgs .fresh := by
    rintro ⟨given, kek, hreaches, -⟩
    cases hreaches.early .auditParent (by simp [earlySteps])
  exact ⟨hnot, (retriable_iff rfl).mpr hnot⟩

/-- At the prompt, five bytes are typed. -/
def hastyHost : InitHost := { KekManager.racingHost 54 with typed := some "short".toList }

/-- A password that is too short leaves a KEK file and no account, and from then on the command
refuses every input. -/
theorem short_password_strands :
    run hastyHost .reference retryArgs ⟨none, .fresh⟩ =
      (.err (.bail "password must be at least 12 characters".toList), ⟨some (List.replicate 32 54), .fresh⟩) ∧
    (∀ host args user m', run host .reference args ⟨some (List.replicate 32 54), .fresh⟩ ≠ (.ok user, m')) ∧
    ¬ Retriable hastyHost .reference retryArgs ⟨none, .fresh⟩ := by
  have hrun : run hastyHost .reference retryArgs ⟨none, .fresh⟩ =
      (.err (.bail "password must be at least 12 characters".toList), ⟨some (List.replicate 32 54), .fresh⟩) := rfl
  refine ⟨hrun, fun host args => run_refused rfl, ?_⟩
  intro h
  cases (h _ _ hrun).1

end FipsDropbox.Cli
