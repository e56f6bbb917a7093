import FipsDropbox.Lib.Json

/-!
# crates/notifier

The senders behind `dyn EmailSender` and `dyn SmsSender`, with what they log, and the
choice that `run_service` makes between them. `SmtpSender::new` is a parameter.
-/
namespace FipsDropbox.Notifier
open Utf8

inductive NotifyError where
  | transport (message : Text)
  | config (message : Text)
  deriving DecidableEq

inductive Level where
  | info
  | warn
  | error
  deriving DecidableEq

/-- A field by its `Display` or its `Debug` form. -/
inductive FieldValue where
  | display (value : Text)
  | debug (value : NotifyError)
  deriving DecidableEq

structure TraceRecord where
  level : Level
  fields : List (Text × FieldValue)
  message : Text
  deriving DecidableEq

def display (name : String) (value : Text) : Text × FieldValue := (name.toList, .display value)
def debug (name : String) (value : NotifyError) : Text × FieldValue := (name.toList, .debug value)

/-- What `send` returns and what it logs. -/
structure EmailSender where
  send (recipient subject bodyText bodyHtml : Text) : Except NotifyError Unit × List TraceRecord

structure SmsSender where
  send (recipient body : Text) : Except NotifyError Unit × List TraceRecord

namespace Null

def email : EmailSender where
  send recipient subject _ _ :=
    (.ok (), [⟨.info, [display "to" recipient, display "subject" subject], "notifier::Null email".toList⟩])

def sms : SmsSender where
  send recipient body :=
    (.ok (), [⟨.info, [display "to" recipient, display "body" body], "notifier::Null sms".toList⟩])

end Null

inductive TlsMode where
  | starttls
  | implicitTls

structure SmtpConfig where
  host : Text
  port : UInt16
  username : Text
  password : Text
  fromAddress : Text
  fromDisplayName : Option Text
  tls : TlsMode

/-- `SmtpSender::summary`. -/
def SmtpConfig.summary (cfg : SmtpConfig) : Text := cfg.host ++ ':' :: Json.decimal cfg.port.toNat

structure Senders where
  email : EmailSender
  emailConfigured : Bool
  sms : SmsSender
  smsConfigured : Bool

/-- The part of `run_service` between the audit log and the `App`. -/
def chooseSenders (smtpNew : SmtpConfig → Except NotifyError EmailSender) (smtp : Option SmtpConfig) :
    Senders × List TraceRecord :=
  let (email, emailConfigured, records) : EmailSender × Bool × List TraceRecord :=
    match smtp with
    | some cfg =>
        match smtpNew cfg with
        | .ok s => (s, true, [⟨.info, [display "relay" cfg.summary], "SMTP: configured".toList⟩])
        | .error e => (Null.email, false,
            [⟨.error, [debug "e" e], "SMTP configured but failed to initialize; using Null sender".toList⟩])
    | none => (Null.email, false,
        [⟨.warn, [], "SMTP: not configured; access codes must be delivered manually".toList⟩])
  ({ email, emailConfigured, sms := Null.sms, smsConfigured := false }, records)

end FipsDropbox.Notifier
