import FipsDropbox.Cli.InitCmd
import FipsDropbox.Notifier.Senders
import FipsDropbox.Service.Effects
import FipsDropbox.Web.Calls

/-!
# crates/app: `cuishare run`

The start of the service: the configuration, the KEK, the store, the log and the senders,
in this order. The paths of a configuration name the same files at every start; what a
process leaves behind is a `Disk`.
-/
namespace FipsDropbox.Cli
open Utf8 Exec Crypto Storage Service Web

structure Config where
  bindAddress : Text
  publicBaseUrl : Text
  dbPath : Text
  blobsDir : Text
  auditLogPath : Text
  kekPath : Text
  smtp : Option Notifier.SmtpConfig

/-- `Config::default`. -/
def Config.default : Config where
  bindAddress := "127.0.0.1:8080".toList
  publicBaseUrl := "http://localhost:8080".toList
  dbPath := "C:\\ProgramData\\FipsDropbox\\app.db".toList
  blobsDir := "C:\\ProgramData\\FipsDropbox\\blobs".toList
  auditLogPath := "C:\\ProgramData\\FipsDropbox\\logs\\audit.jsonl".toList
  kekPath := "C:\\ProgramData\\FipsDropbox\\kek.bin".toList
  smtp := none

/-- Steps that can fail for reasons of their own, in the order of the start. -/
inductive RunStep where
  | readConfig
  | readKek
  | blobsDir
  | dbParent
  | openDatabase
  | applySchema
  | auditParent
  | readLog
  | bind
  deriving DecidableEq

/-- What the process is built with and finds on its machine: `parseConfig` is
`toml::from_str` and `unprotect` DPAPI. -/
structure Platform where
  fipsMode : Bool
  debugAssertions : Bool
  parseConfig : Text → Option Config
  unprotect : Bytes → Option Bytes
  smtpNew : Notifier.SmtpConfig → Except Notifier.NotifyError Notifier.EmailSender
  bcrypt : Bcrypt
  serde : Audit.SerdeJson
  caseTables : CaseTables
  parseUuid : Text → Option Uuid
  floatText : F64 → Text

structure RunHost extends Platform where
  failsAt : RunStep → Bool

/-- What is on disk between two processes. -/
structure Disk where
  config : Option Bytes
  kekFile : Option Bytes
  store : Store
  file : Audit.File

inductive RunError where
  | fipsRequired
  | config
  | kekNotFound
  | kek (e : KekError)
  | audit (e : Audit.AuditError)
  | step (s : RunStep)

section
variable (host : RunHost)

def runStep (s : RunStep) : Exec Disk RunError Unit := failIf (host.failsAt s) (.step s)

/-- `config::load`. -/
def loadConfig : Exec Disk RunError Config := do
  let file ← read Disk.config
  match file with
  | none => pure .default
  | some bytes => do
      runStep host .readConfig
      let contents ← orErr .config (decode bytes)
      orErr .config (host.parseConfig contents)

def openDb : Exec Disk RunError Unit := do
  runStep host .blobsDir
  runStep host .dbParent
  runStep host .openDatabase
  runStep host .applySchema

def openAudit : Exec Disk RunError Audit.Log := do
  runStep host .auditParent
  runStep host .readLog
  let opened ← read fun d => Audit.Log.openLog host.serde d.file
  lift RunError.audit opened

/-- The `App` of a configuration and a key. -/
def siteOf (cfg : Config) (kek : Octets 32) : Site :=
  let senders := (Notifier.chooseSenders host.smtpNew cfg.smtp).1
  { bcrypt := host.bcrypt
    serde := host.serde
    kek
    publicBaseUrl := cfg.publicBaseUrl
    fipsModeEnabled := host.fipsMode
    emailConfigured := senders.emailConfigured
    smsConfigured := senders.smsConfigured
    caseTables := host.caseTables
    parseUuid := host.parseUuid
    floatText := host.floatText }

/-- `run_service` up to the listener, with the log that the service starts with. -/
def runService : Exec Disk RunError (Site × Audit.Log) := do
  failIf (!host.fipsMode && !host.debugAssertions) .fipsRequired
  let cfg ← loadConfig host
  let found ← read fun d => d.kekFile.isSome
  failIf (!found) .kekNotFound
  runStep host .readKek
  let kek ← adapt RunError.kek
    (zoom Disk.kekFile (fun kekFile d => { d with kekFile }) (KekManager.load host.unprotect))
  openDb host
  let log ← openAudit host
  runStep host .bind
  pure (siteOf host cfg kek, log)

end

/-- The world of a service at its start; what has been sent is sent. -/
def Disk.world (d : Disk) (log : Audit.Log) (notices : List Notice) : World where
  store := d.store
  log
  file := d.file
  storePoisoned := false
  auditPoisoned := false
  notices

def Disk.after (d : Disk) (w : World) : Disk := { d with store := w.store, file := w.file }

/-- A request, or the end of the process and a new start on what it left. -/
inductive Incident where
  | visit (env : RequestEnv) (req : HttpRequest)
  | restart (host : RunHost)

/-- A service over its restarts, up to one that does not come up. -/
def operate (d : Disk) : Site → World → List Incident → Outcome RunError (Site × World)
  | site, w, [] => .ok (site, w)
  | site, w, .visit env req :: rest => operate d site (respond env site req w).2 rest
  | _, w, .restart host :: rest =>
      match runService host (d.after w) with
      | (.ok (site, log), d) => operate d site (d.world log w.notices) rest
      | (.err e, _) => .err e
      | (.panic, _) => .panic

section
variable {host : RunHost} {d d' : Disk}

theorem runStep_ok_iff {s : RunStep} {u : Unit} : runStep host s d = (.ok u, d') ↔ host.failsAt s = false ∧ d = d' :=
  failIf_ok_iff

theorem loadConfig_ok {cfg : Config} (h : loadConfig host d = (.ok cfg, d')) : d = d' := by
  obtain ⟨file, d1, h1, k1⟩ := bind_ok_iff.mp h
  obtain ⟨rfl, rfl⟩ := read_ok_iff.mp h1
  cases hfile : d.config with
  | none =>
      rw [hfile] at k1
      exact (pure_ok_iff.mp k1).2
  | some bytes =>
      rw [hfile] at k1
      obtain ⟨_, d2, h2, k2⟩ := bind_ok_iff.mp k1
      obtain ⟨contents, d3, h3, h4⟩ := bind_ok_iff.mp k2
      rw [(runStep_ok_iff.mp h2).2, (orErr_ok_iff.mp h3).2, (orErr_ok_iff.mp h4).2]

theorem openDb_ok_iff {u : Unit} : openDb host d = (.ok u, d') ↔ host.failsAt .blobsDir = false ∧
    host.failsAt .dbParent = false ∧ host.failsAt .openDatabase = false ∧ host.failsAt .applySchema = false ∧ d = d' := by
  simp only [openDb, bind_ok_iff, runStep_ok_iff]
  constructor
  · rintro ⟨_, _, ⟨h1, rfl⟩, _, _, ⟨h2, rfl⟩, _, _, ⟨h3, rfl⟩, h4, rfl⟩
    exact ⟨h1, h2, h3, h4, rfl⟩
  · rintro ⟨h1, h2, h3, h4, rfl⟩
    exact ⟨(), d, ⟨h1, rfl⟩, (), d, ⟨h2, rfl⟩, (), d, ⟨h3, rfl⟩, h4, rfl⟩

theorem openAudit_ok_iff {log : Audit.Log} : openAudit host d = (.ok log, d') ↔
    host.failsAt .auditParent = false ∧ host.failsAt .readLog = false ∧
      Audit.Log.openLog host.serde d.file = .ok log ∧ d = d' := by
  simp only [openAudit, bind_ok_iff, runStep_ok_iff, read_ok_iff, lift_ok_iff]
  constructor
  · rintro ⟨_, _, ⟨h1, rfl⟩, _, _, ⟨h2, rfl⟩, _, _, ⟨rfl, rfl⟩, hlog, rfl⟩
    exact ⟨h1, h2, hlog, rfl⟩
  · rintro ⟨h1, h2, hlog, rfl⟩
    exact ⟨(), d, ⟨h1, rfl⟩, (), d, ⟨h2, rfl⟩, _, d, ⟨rfl, rfl⟩, hlog, rfl⟩

theorem load_ok_iff {unprotect : Bytes → Option Bytes} {file file' : Option Bytes} {kek : Octets 32} :
    KekManager.load unprotect file = (.ok kek, file') ↔
      ∃ wrapped raw, file = some wrapped ∧ unprotect wrapped = some raw ∧ DataKey.ofBytes raw = some kek ∧
        file = file' := by
  simp only [KekManager.load, bind_ok_iff, read_ok_iff, orErr_ok_iff]
  constructor
  · rintro ⟨_, _, ⟨rfl, rfl⟩, wrapped, _, ⟨hfile, rfl⟩, raw, _, ⟨hraw, rfl⟩, hkek, rfl⟩
    exact ⟨wrapped, raw, hfile, hraw, hkek, rfl⟩
  · rintro ⟨wrapped, raw, hfile, hraw, hkek, rfl⟩
    exact ⟨file, file, ⟨rfl, rfl⟩, wrapped, file, ⟨hfile, rfl⟩, raw, file, ⟨hraw, rfl⟩, hkek, rfl⟩

/-- What a start that comes up has found, and the site it serves. -/
structure Starts (host : RunHost) (d : Disk) (site : Site) (log : Audit.Log) : Prop where
  fips : (!host.fipsMode && !host.debugAssertions) = false
  config : ∃ cfg wrapped raw kek, loadConfig host d = (.ok cfg, d) ∧ d.kekFile = some wrapped ∧
    host.unprotect wrapped = some raw ∧ DataKey.ofBytes raw = some kek ∧ site = siteOf host cfg kek
  log : Audit.Log.openLog host.serde d.file = .ok log
  steps : ∀ s, s ≠ .readConfig → host.failsAt s = false

theorem runService_ok_iff {site : Site} {log : Audit.Log} :
    runService host d = (.ok (site, log), d') ↔ Starts host d site log ∧ d = d' := by
  constructor
  · intro h
    obtain ⟨_, d0, h0, k0⟩ := bind_ok_iff.mp h
    obtain ⟨hfips, rfl⟩ := failIf_ok_iff.mp h0
    obtain ⟨cfg, d1, h1, k1⟩ := bind_ok_iff.mp k0
    obtain rfl := loadConfig_ok h1
    obtain ⟨found, d2, h2, k2⟩ := bind_ok_iff.mp k1
    obtain ⟨rfl, rfl⟩ := read_ok_iff.mp h2
    obtain ⟨_, d3, h3, k3⟩ := bind_ok_iff.mp k2
    obtain ⟨-, rfl⟩ := failIf_ok_iff.mp h3
    obtain ⟨_, d4, h4, k4⟩ := bind_ok_iff.mp k3
    obtain ⟨hread, rfl⟩ := runStep_ok_iff.mp h4
    obtain ⟨kek, d5, h5, k5⟩ := bind_ok_iff.mp k4
    obtain ⟨file, hload, rfl⟩ := zoom_ok_iff.mp (adapt_ok_iff.mp h5)
    obtain ⟨wrapped, raw, hfile, hraw, hkek, rfl⟩ := load_ok_iff.mp hload
    obtain ⟨_, d6, h6, k6⟩ := bind_ok_iff.mp k5
    obtain ⟨hb, hp, ho, ha, rfl⟩ := openDb_ok_iff.mp h6
    obtain ⟨log', d7, h7, k7⟩ := bind_ok_iff.mp k6
    obtain ⟨hparent, hreadLog, hlog, rfl⟩ := openAudit_ok_iff.mp h7
    obtain ⟨_, d8, h8, k8⟩ := bind_ok_iff.mp k7
    obtain ⟨hbind, rfl⟩ := runStep_ok_iff.mp h8
    obtain ⟨hpair, rfl⟩ := pure_ok_iff.mp k8
    obtain ⟨rfl, rfl⟩ := Prod.mk.inj hpair
    refine ⟨⟨hfips, ⟨cfg, wrapped, raw, kek, h1, hfile, hraw, hkek, rfl⟩, hlog, ?_⟩, rfl⟩
    intro s hs
    cases s with
    | readConfig => exact absurd rfl hs
    | readKek => exact hread
    | blobsDir => exact hb
    | dbParent => exact hp
    | openDatabase => exact ho
    | applySchema => exact ha
    | auditParent => exact hparent
    | readLog => exact hreadLog
    | bind => exact hbind
  · rintro ⟨⟨hfips, ⟨cfg, wrapped, raw, kek, hcfg, hfile, hraw, hkek, rfl⟩, hlog, hsteps⟩, rfl⟩
    have hmode : (failIf (!host.fipsMode && !host.debugAssertions) RunError.fipsRequired : Exec Disk RunError Unit) d =
        (.ok (), d) := failIf_ok_iff.mpr ⟨hfips, rfl⟩
    have hfound : (failIf (!d.kekFile.isSome) RunError.kekNotFound : Exec Disk RunError Unit) d = (.ok (), d) :=
      failIf_ok_iff.mpr ⟨by rw [hfile]; rfl, rfl⟩
    have hload : (adapt RunError.kek (zoom Disk.kekFile (fun kekFile d => { d with kekFile })
        (KekManager.load host.unprotect))) d = (.ok kek, d) :=
      adapt_ok_iff.mpr (zoom_ok_iff.mpr ⟨_, load_ok_iff.mpr ⟨wrapped, raw, hfile, hraw, hkek, rfl⟩, rfl⟩)
    have hdb : openDb host d = (.ok (), d) := openDb_ok_iff.mpr ⟨hsteps .blobsDir (by decide),
      hsteps .dbParent (by decide), hsteps .openDatabase (by decide), hsteps .applySchema (by decide), rfl⟩
    have haudit : openAudit host d = (.ok log, d) := openAudit_ok_iff.mpr
      ⟨hsteps .auditParent (by decide), hsteps .readLog (by decide), hlog, rfl⟩
    have hread : runStep host .readKek d = (.ok (), d) := runStep_ok_iff.mpr ⟨hsteps .readKek (by decide), rfl⟩
    have hbind : runStep host .bind d = (.ok (), d) := runStep_ok_iff.mpr ⟨hsteps .bind (by decide), rfl⟩
    rw [runService, bind_ok hmode, bind_ok hcfg, bind_ok (read_apply _ _), bind_ok hfound,
      bind_ok hread, bind_ok hload, bind_ok hdb, bind_ok haudit, bind_ok hbind]
    rfl

end
end FipsDropbox.Cli
