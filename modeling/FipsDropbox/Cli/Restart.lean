import FipsDropbox.Cli.Bootstrap
import FipsDropbox.Cli.RunService

/-!
# Restarts

A service that loses no line of its log can be stopped and started at any time: it comes
up with the same key, and all that a restart changes is that poisoned mutexes are free
again.
-/
namespace FipsDropbox.Cli
open Utf8 Exec Crypto Storage Service Web
open Audit (Holds chain genesisHash)

def healed (w : World) : World := { w with storePoisoned := false, auditPoisoned := false }

/-- The same requests to a service that is never stopped, its mutexes freed wherever the
other one is started again. -/
def uninterrupted (site : Site) : World → List Incident → World
  | w, [] => w
  | w, .visit env req :: rest => uninterrupted site (respond env site req w).2 rest
  | w, .restart _ :: rest => uninterrupted site (healed w) rest

def visitsOf : List Incident → List (RequestEnv × HttpRequest)
  | [] => []
  | .visit env req :: rest => (env, req) :: visitsOf rest
  | .restart _ :: rest => visitsOf rest

/-- The start is on the same platform, and no step of it fails. -/
def Again (platform : Platform) : Incident → Prop
  | .visit .. => True
  | .restart host => host.toPlatform = platform ∧ ∀ s, host.failsAt s = false

def Incident.KeepsLines : Incident → Prop
  | .visit env _ => env.KeepsLines
  | .restart _ => True

section
variable {host again : RunHost} {d : Disk} {site : Site} {log : Audit.Log} {w : World}

theorem respond_inStep {env : RequestEnv} (D : site.serde.Documented) (henv : env.KeepsLines) (req : HttpRequest)
    (hw : InStep site.toApp w) : InStep site.toApp (respond env site req w).2 := by
  obtain ⟨trace, hown, -, hstate⟩ := fronts_route env site req w
  rw [respond_state, hstate]
  apply serve_inStep D _ hw
  intro x hx
  rw [(hown x hx).1]
  exact henv

theorem loadConfig_again (hsame : again.toPlatform = host.toPlatform) (hstep : again.failsAt .readConfig = false)
    {cfg : Config} (h : loadConfig host d = (.ok cfg, d)) {d' : Disk} (hdisk : d'.config = d.config) :
    loadConfig again d' = (.ok cfg, d') := by
  have hread : runStep again .readConfig d' = (.ok (), d') := runStep_ok_iff.mpr ⟨hstep, rfl⟩
  obtain ⟨file, d1, h1, k1⟩ := bind_ok_iff.mp h
  obtain ⟨rfl, rfl⟩ := read_ok_iff.mp h1
  rw [loadConfig, bind_ok (read_apply _ _), hdisk]
  cases hfile : d.config with
  | none =>
      rw [hfile] at k1
      obtain ⟨rfl, -⟩ := pure_ok_iff.mp k1
      rfl
  | some bytes =>
      rw [hfile] at k1
      obtain ⟨_, d2, h2, k2⟩ := bind_ok_iff.mp k1
      obtain ⟨-, rfl⟩ := runStep_ok_iff.mp h2
      obtain ⟨contents, d3, h3, h4⟩ := bind_ok_iff.mp k2
      obtain ⟨hdecode, rfl⟩ := orErr_ok_iff.mp h3
      obtain ⟨hparse, -⟩ := orErr_ok_iff.mp h4
      dsimp only
      rw [bind_ok hread, hsame, hdecode]
      exact orErr_ok_iff.mpr ⟨hparse, rfl⟩

theorem siteOf_again (hsame : again.toPlatform = host.toPlatform) (cfg : Config) (kek : Octets 32) :
    siteOf again cfg kek = siteOf host cfg kek := by
  rw [siteOf, siteOf, hsame]

/-- The step lemma: the service comes up as what it was, with the log that it had. -/
theorem Starts.restarted (h : Starts host d site log) (hsame : again.toPlatform = host.toPlatform)
    (hsteps : ∀ s, again.failsAt s = false) (hw : InStep site.toApp w) : Starts again (d.after w) site w.log := by
  obtain ⟨cfg, wrapped, raw, kek, hcfg, hfile, hraw, hkek, rfl⟩ := h.config
  obtain ⟨es, hes⟩ := hw
  refine ⟨?_, ⟨cfg, wrapped, raw, kek, ?_, hfile, ?_, hkek, (siteOf_again hsame cfg kek).symm⟩, ?_, fun s _ => hsteps s⟩
  · rw [hsame]
    exact h.fips
  · exact loadConfig_again hsame (hsteps .readConfig) hcfg rfl
  · rw [hsame]
    exact hraw
  · rw [hsame]
    exact hes.openLog

theorem Starts.serde (h : Starts host d site log) : site.serde = host.serde := by
  obtain ⟨cfg, wrapped, raw, kek, -, -, -, -, rfl⟩ := h.config
  rfl

theorem operate_uninterrupted {platform : Platform} (D : site.serde.Documented) {incidents : List Incident}
    (hlines : ∀ i ∈ incidents, i.KeepsLines) (hagain : ∀ i ∈ incidents, Again platform i)
    (hplatform : host.toPlatform = platform) (h : Starts host d site log) (hw : InStep site.toApp w) :
    operate d site w incidents = .ok (site, uninterrupted site w incidents) := by
  induction incidents generalizing host d log w with
  | nil => rfl
  | cons i rest ih =>
      have hlater := fun j hj => hlines j (List.mem_cons_of_mem i hj)
      have hagainLater := fun j hj => hagain j (List.mem_cons_of_mem i hj)
      cases i with
      | visit env req =>
          have henv : env.KeepsLines := hlines _ List.mem_cons_self
          exact ih hlater hagainLater hplatform h (respond_inStep D henv req hw)
      | restart again =>
          obtain ⟨hsame, hsteps⟩ := hagain _ List.mem_cons_self
          have hnext := h.restarted (hsame.trans hplatform.symm) hsteps hw
          rw [operate, runService_ok_iff.mpr ⟨hnext, rfl⟩]
          exact ih hlater hagainLater hsame hnext hw

/-- A restart of a service without a poisoned mutex changes nothing. -/
theorem uninterrupted_calm {incidents : List Incident}
    (h : ∀ before, before <+: visitsOf incidents → healed (respondAll site w before) = respondAll site w before) :
    uninterrupted site w incidents = respondAll site w (visitsOf incidents) := by
  induction incidents generalizing w with
  | nil => rfl
  | cons i rest ih =>
      cases i with
      | visit env req =>
          apply ih
          intro before hbefore
          exact h ((env, req) :: before) (List.cons_prefix_cons.mpr ⟨rfl, hbefore⟩)
      | restart again =>
          have hfree : healed w = w := h [] (List.nil_prefix)
          rw [uninterrupted, hfree]
          exact ih h

end

/-- A service that came up on a verified log, and whose requests lose no line of it, comes
up again whenever it is restarted on the same platform and no step of the start fails, with
the same configuration and key; every state is that of the service never stopped, up to the
mutexes that a restart frees, and exactly that where no request panics. -/
theorem restarts_only_heal {host : RunHost} {d : Disk} {site : Site} {log : Audit.Log} {es : List Audit.Event}
    (D : host.serde.Documented) (hholds : Holds host.serde d.file es)
    (hverified : Audit.verifyChain host.serde host.bcrypt es = .ok ⟨true, none, es.length⟩)
    (hstart : runService host d = (.ok (site, log), d)) {incidents : List Incident}
    (hlines : ∀ i ∈ incidents, i.KeepsLines) (hagain : ∀ i ∈ incidents, Again host.toPlatform i) :
    operate d site (d.world log []) incidents = .ok (site, uninterrupted site (d.world log []) incidents) ∧
      ((∀ before, before <+: visitsOf incidents →
          healed (respondAll site (d.world log []) before) = respondAll site (d.world log []) before) →
        operate d site (d.world log []) incidents =
          .ok (site, respondAll site (d.world log []) (visitsOf incidents))) := by
  have hstarts : Starts host d site log := (runService_ok_iff.mp hstart).1
  obtain ⟨cfg, wrapped, raw, kek, -, -, -, -, rfl⟩ := hstarts.config
  obtain ⟨log', hopen, hcoherent⟩ := Audit.Coherent.start hholds ((Audit.verifyChain_iff_linked es).mp hverified)
  obtain rfl : log' = log := Except.ok.inj (hopen.symm.trans hstarts.log)
  have hinStep : InStep (siteOf host cfg kek).toApp (d.world log' []) := ⟨es, hcoherent⟩
  have hrun := operate_uninterrupted D hlines hagain rfl hstarts hinStep
  refine ⟨hrun, ?_⟩
  intro hcalm
  rw [hrun, uninterrupted_calm hcalm]

def sampleRunHost : RunHost where
  fipsMode := true
  debugAssertions := false
  parseConfig _ := none
  unprotect := some
  smtpNew _ := .ok Notifier.Null.email
  bcrypt := sampleSite.bcrypt
  serde := sampleSite.serde
  caseTables := sampleSite.caseTables
  parseUuid := sampleSite.parseUuid
  floatText := sampleSite.floatText
  failsAt _ := false

def sampleDisk : Disk where
  config := none
  kekFile := some sampleApp.kek.val
  store := .fresh
  file := none

/-- A panic, a restart, and a login that is denied. -/
def panicAndRestart : List Incident :=
  [.visit quietEnv (.redeemPost (.ok uncuttableRequest.token) [] (.ok ⟨[]⟩)), .restart sampleRunHost,
    .visit quietEnv (.loginPost [] (.ok ⟨"admin@example.com".toList, samplePassword⟩))]

theorem restarts_only_heal_sample :
    operate sampleDisk (siteOf sampleRunHost .default sampleApp.kek) (sampleDisk.world ⟨genesisHash⟩ []) panicAndRestart =
        .ok (siteOf sampleRunHost .default sampleApp.kek,
          uninterrupted (siteOf sampleRunHost .default sampleApp.kek) (sampleDisk.world ⟨genesisHash⟩ [])
            panicAndRestart) ∧
      ((∀ before, before <+: visitsOf panicAndRestart →
          healed (respondAll (siteOf sampleRunHost .default sampleApp.kek) (sampleDisk.world ⟨genesisHash⟩ []) before) =
            respondAll (siteOf sampleRunHost .default sampleApp.kek) (sampleDisk.world ⟨genesisHash⟩ []) before) →
        operate sampleDisk (siteOf sampleRunHost .default sampleApp.kek) (sampleDisk.world ⟨genesisHash⟩ [])
            panicAndRestart =
          .ok (siteOf sampleRunHost .default sampleApp.kek,
            respondAll (siteOf sampleRunHost .default sampleApp.kek) (sampleDisk.world ⟨genesisHash⟩ [])
              (visitsOf panicAndRestart))) := by
  have hstart : runService sampleRunHost sampleDisk =
      (.ok (siteOf sampleRunHost .default sampleApp.kek, ⟨genesisHash⟩), sampleDisk) := rfl
  refine restarts_only_heal Audit.SerdeJson.reference_documented Audit.holds_absent rfl hstart ?_ ?_
  · intro i hi
    simp only [panicAndRestart, List.mem_cons, List.not_mem_nil, or_false] at hi
    rcases hi with rfl | rfl | rfl
    · simp [Incident.KeepsLines, RequestEnv.KeepsLines, quietEnv]
    · trivial
    · simp [Incident.KeepsLines, RequestEnv.KeepsLines, quietEnv]
  · intro i hi
    simp only [panicAndRestart, List.mem_cons, List.not_mem_nil, or_false] at hi
    rcases hi with rfl | rfl | rfl
    · trivial
    · exact ⟨rfl, fun _ => rfl⟩
    · trivial

end FipsDropbox.Cli
