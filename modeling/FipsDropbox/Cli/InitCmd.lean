import FipsDropbox.Storage.Administration

/-!
# crates/app: `cuishare init`

The one-time bootstrap: it creates the KEK file, opens the database and seeds the first
admin. The paths of the configuration are taken to be distinct, so that the KEK file is
apart from the store.
-/
namespace FipsDropbox.Cli
open Utf8 Exec Crypto Storage

/-- Steps that can fail outside of `users::create`, in the order of the command. -/
inductive InitStep where
  | loadConfig
  | kekParent
  | dbParent
  | auditParent
  | blobsDir
  | protectKek
  | kekFileParent
  | writeKek
  | openBlobsDir
  | openDbParent
  | openDatabase
  | applySchema

/-- `protect` is DPAPI; `partialKek` is how much a failing write leaves in the KEK file, if
it has created one; the prompts return what is typed, if they can read it. -/
structure InitHost extends Env where
  failsAt : InitStep → Bool
  kek : Option (Octets 32)
  protect : Octets 32 → Bytes
  partialKek : Option ℕ
  typed : Option Text
  typedAgain : Option Text

structure Machine where
  kekFile : Option Bytes
  store : Store

inductive KekError where
  | alreadyExists
  | cng
  | io
  | invalidKeyLength

inductive InitError where
  | bail (message : Text)
  | kekExists
  | step
  | prompt
  | kek (e : KekError)
  | storage (e : StorageError)

/-- The loop of `parse_args`. -/
def parseArgsFrom (email password : Option Text) : List Text → Except InitError (Text × Option Text)
  | [] =>
      match email with
      | some email => .ok (email, password)
      | none => .error (.bail "--admin-email is required".toList)
  | flag :: rest =>
      if flag = "--admin-email".toList then
        match rest with
        | value :: rest => parseArgsFrom (some value) password rest
        | [] => .error (.bail "--admin-email requires a value".toList)
      else if flag = "--admin-password".toList then
        match rest with
        | value :: rest => parseArgsFrom email (some value) rest
        | [] => .error (.bail "--admin-password requires a value".toList)
      else .error (.bail ("unknown flag: ".toList ++ flag))

def parseArgs (args : List Text) : Except InitError (Text × Option Text) := parseArgsFrom none none args

section
variable (host : InitHost) (B : Bcrypt)

def promptPassword : Exec Machine InitError Text := do
  let p1 ← orErr .prompt host.typed
  failIf ((encode p1).length < 12) (.bail "password must be at least 12 characters".toList)
  let p2 ← orErr .prompt host.typedAgain
  failIf (p1 ≠ p2) (.bail "passwords do not match".toList)
  pure p1

def choosePassword : Option Text → Exec Machine InitError Text
  | some p => pure p
  | none => promptPassword host

/-- `fs::write`. -/
def writeKek (content : Bytes) : Exec (Option Bytes) KekError Unit := fun file =>
  if host.failsAt .writeKek then
    (.err .io, match host.partialKek with
      | none => file
      | some n => some (content.take n))
  else (.ok (), some content)

/-- `KekManager::init`. -/
def KekManager.init : Exec (Option Bytes) KekError (Octets 32) := do
  let taken ← read Option.isSome
  failIf taken .alreadyExists
  let kek ← orErr .cng host.kek
  failIf (host.failsAt .protectKek) .cng
  failIf (host.failsAt .kekFileParent) .io
  writeKek host (host.protect kek)
  pure kek

/-- `KekManager::load`, `unprotect` being DPAPI. -/
def KekManager.load (unprotect : Bytes → Option Bytes) : Exec (Option Bytes) KekError (Octets 32) := do
  let file ← read id
  let wrapped ← orErr .io file
  let raw ← orErr .cng (unprotect wrapped)
  orErr .invalidKeyLength (DataKey.ofBytes raw)

def initStep (s : InitStep) : Exec Machine InitError Unit := failIf (host.failsAt s) .step

/-- `Store::open`; the schema is applied where it is not there yet. -/
def openStore : Exec Machine InitError Unit := do
  initStep host .openBlobsDir
  initStep host .openDbParent
  initStep host .openDatabase
  initStep host .applySchema

def onKekFile {α : Type} (m : Exec (Option Bytes) KekError α) : Exec Machine InitError α :=
  adapt InitError.kek (zoom Machine.kekFile (fun kekFile m => { m with kekFile }) m)

def onStore {α : Type} (m : Exec Store StorageError α) : Exec Machine InitError α :=
  adapt InitError.storage (zoom Machine.store (fun store m => { m with store }) m)

/-- `init_cmd::run`, up to the user whose identifier it prints. -/
def run (args : List Text) : Exec Machine InitError User := do
  let (email, password) ← lift id (parseArgs args)
  initStep host .loadConfig
  initStep host .kekParent
  initStep host .dbParent
  initStep host .auditParent
  initStep host .blobsDir
  let taken ← read fun m => m.kekFile.isSome
  failIf taken .kekExists
  let _ ← onKekFile (KekManager.init host)
  openStore host
  let password ← choosePassword host password
  onStore (Users.create host.toEnv B email .admin password)

end

/-- The password given as an argument, or else the one typed twice. -/
def Entered (host : InitHost) (args : List Text) (email password : Text) : Prop :=
  parseArgs args = .ok (email, some password) ∨
    (parseArgs args = .ok (email, none) ∧ host.typed = some password ∧ host.typedAgain = some password)

theorem promptPassword_ok {host : InitHost} {m m' : Machine} {password : Text}
    (h : promptPassword host m = (.ok password, m')) :
    host.typed = some password ∧ host.typedAgain = some password ∧ m = m' := by
  obtain ⟨p1, m1, h1, k1⟩ := bind_ok_iff.mp h
  obtain ⟨htyped, rfl⟩ := orErr_ok_iff.mp h1
  obtain ⟨_, m2, h2, k2⟩ := bind_ok_iff.mp k1
  obtain ⟨-, rfl⟩ := failIf_ok_iff.mp h2
  obtain ⟨p2, m3, h3, k3⟩ := bind_ok_iff.mp k2
  obtain ⟨hagain, rfl⟩ := orErr_ok_iff.mp h3
  obtain ⟨_, m4, h4, k4⟩ := bind_ok_iff.mp k3
  obtain ⟨hsame, rfl⟩ := failIf_ok_iff.mp h4
  obtain ⟨rfl, rfl⟩ := pure_ok_iff.mp k4
  have heq : p1 = p2 := by simpa using hsame
  exact ⟨htyped, heq ▸ hagain, rfl⟩

section
variable {host : InitHost} {B : Bcrypt}

theorem initStep_ok_iff {s : InitStep} {m m' : Machine} {u : Unit} :
    initStep host s m = (.ok u, m') ↔ host.failsAt s = false ∧ m = m' := failIf_ok_iff

theorem openStore_ok {m m' : Machine} {u : Unit} (h : openStore host m = (.ok u, m')) : m = m' := by
  obtain ⟨_, m1, h1, k1⟩ := bind_ok_iff.mp h
  obtain ⟨_, m2, h2, k2⟩ := bind_ok_iff.mp k1
  obtain ⟨_, m3, h3, h4⟩ := bind_ok_iff.mp k2
  rw [(initStep_ok_iff.mp h1).2, (initStep_ok_iff.mp h2).2, (initStep_ok_iff.mp h3).2, (initStep_ok_iff.mp h4).2]

theorem onKekFile_store {α : Type} {k : Exec (Option Bytes) KekError α} {m m' : Machine} {a : α}
    (h : onKekFile k m = (.ok a, m')) : m'.store = m.store := by
  obtain ⟨file, -, rfl⟩ := zoom_ok_iff.mp (adapt_ok_iff.mp h)
  rfl

theorem run_ok {args : List Text} {m m' : Machine} {user : User} (h : run host B args m = (.ok user, m')) :
    ∃ email password, Entered host args email password ∧
      Users.create host.toEnv B email .admin password m.store = (.ok user, m'.store) := by
  obtain ⟨⟨email, given⟩, m0, h0, k0⟩ := bind_ok_iff.mp h
  obtain ⟨hparse, rfl⟩ := lift_ok_iff.mp h0
  obtain ⟨_, m1, h1, k1⟩ := bind_ok_iff.mp k0
  obtain ⟨_, m2, h2, k2⟩ := bind_ok_iff.mp k1
  obtain ⟨_, m3, h3, k3⟩ := bind_ok_iff.mp k2
  obtain ⟨_, m4, h4, k4⟩ := bind_ok_iff.mp k3
  obtain ⟨_, m5, h5, k5⟩ := bind_ok_iff.mp k4
  obtain ⟨taken, m6, h6, k6⟩ := bind_ok_iff.mp k5
  obtain ⟨_, m7, h7, k7⟩ := bind_ok_iff.mp k6
  obtain ⟨kek, m8, h8, k8⟩ := bind_ok_iff.mp k7
  obtain ⟨_, m9, h9, k9⟩ := bind_ok_iff.mp k8
  obtain ⟨password, m10, h10, k10⟩ := bind_ok_iff.mp k9
  obtain ⟨s, hcreate, rfl⟩ := zoom_ok_iff.mp (adapt_ok_iff.mp k10)
  have hprompt : Entered host args email password ∧ m9 = m10 := by
    cases given with
    | some p =>
        obtain ⟨rfl, rfl⟩ := pure_ok_iff.mp h10
        exact ⟨.inl hparse, rfl⟩
    | none =>
        obtain ⟨htyped, hagain, rfl⟩ := promptPassword_ok h10
        exact ⟨.inr ⟨hparse, htyped, hagain⟩, rfl⟩
  obtain ⟨hentered, rfl⟩ := hprompt
  have hstore : m9.store = m.store := by
    rw [← openStore_ok h9, onKekFile_store h8, ← (failIf_ok_iff.mp h7).2, ← (read_ok_iff.mp h6).2,
      ← (initStep_ok_iff.mp h5).2, ← (initStep_ok_iff.mp h4).2, ← (initStep_ok_iff.mp h3).2,
      ← (initStep_ok_iff.mp h2).2, ← (initStep_ok_iff.mp h1).2]
  exact ⟨email, password, hentered, hstore ▸ hcreate⟩

theorem run_of_create {args : List Text} {email password : Text} {kek : Octets 32} {s s' : Store} {user : User}
    (hparse : parseArgs args = .ok (email, some password)) (hsteps : ∀ step, host.failsAt step = false)
    (hkek : host.kek = some kek)
    (hcreate : Users.create host.toEnv B email .admin password s = (.ok user, s')) :
    run host B args ⟨none, s⟩ = (.ok user, ⟨some (host.protect kek), s'⟩) := by
  have hstep : ∀ step m, initStep host step m = (.ok (), m) :=
    fun step m => initStep_ok_iff.mpr ⟨hsteps step, rfl⟩
  have hopen : ∀ m, openStore host m = (.ok (), m) := by
    intro m
    rw [openStore, bind_ok (hstep _ m), bind_ok (hstep _ m), bind_ok (hstep _ m), hstep]
  have hinit : KekManager.init host none = (.ok kek, some (host.protect kek)) := by
    have hwrite : writeKek host (host.protect kek) none = (.ok (), some (host.protect kek)) :=
      if_neg (by simp [hsteps])
    rw [KekManager.init, bind_ok (read_apply _ _), hkek, hsteps, hsteps]
    exact bind_ok hwrite _
  have hfile : onKekFile (KekManager.init host) ⟨none, s⟩ = (.ok kek, ⟨some (host.protect kek), s⟩) :=
    adapt_ok_iff.mpr (zoom_ok_iff.mpr ⟨_, hinit, rfl⟩)
  have hlast : onStore (Users.create host.toEnv B email .admin password) ⟨some (host.protect kek), s⟩ =
      (.ok user, ⟨some (host.protect kek), s'⟩) := adapt_ok_iff.mpr (zoom_ok_iff.mpr ⟨_, hcreate, rfl⟩)
  have hfree : (failIf false InitError.kekExists : Exec Machine InitError Unit) ⟨none, s⟩ = (.ok (), ⟨none, s⟩) := rfl
  have hargs : (lift id (parseArgs args) : Exec Machine InitError (Text × Option Text)) ⟨none, s⟩ =
      (.ok (email, some password), ⟨none, s⟩) := lift_ok_iff.mpr ⟨hparse, rfl⟩
  rw [run, bind_ok hargs]
  dsimp only
  rw [bind_ok (hstep _ _), bind_ok (hstep _ _), bind_ok (hstep _ _), bind_ok (hstep _ _), bind_ok (hstep _ _),
    bind_ok (read_apply _ _)]
  refine (bind_ok hfree _).trans ?_
  rw [bind_ok hfile, bind_ok (hopen _)]
  exact (bind_ok (pure_apply _ _) _).trans hlast

end
end FipsDropbox.Cli
