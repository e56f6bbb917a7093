import FipsDropbox.Lib.HashChain
import FipsDropbox.Lib.JsonText
import FipsDropbox.Lib.JsonMap
import FipsDropbox.Lib.Csv
import FipsDropbox.Lib.Percent
import FipsDropbox.Lib.Sha256
import FipsDropbox.Lib.AesGcm
import FipsDropbox.Lib.Ciphers
import FipsDropbox.Lib.Time
import FipsDropbox.Lib.Rfc3339
import FipsDropbox.Lib.History
import FipsDropbox.Lib.Table
import FipsDropbox.Lib.Exec
import FipsDropbox.Lib.Lowercase
import FipsDropbox.Lib.Runs
import FipsDropbox.Lib.TwoRuns
import FipsDropbox.Lib.Sampling
import FipsDropbox.Lib.Markup
import FipsDropbox.Crypto.Cng
import FipsDropbox.Crypto.Host
import FipsDropbox.Crypto.Envelope
import FipsDropbox.Crypto.AccessCode
import FipsDropbox.Storage.Db
import FipsDropbox.Storage.Shares
import FipsDropbox.Storage.Prints
import FipsDropbox.Storage.Accounts
import FipsDropbox.Storage.Administration
import FipsDropbox.Storage.Credentials
import FipsDropbox.Storage.Passwords
import FipsDropbox.Storage.Lifecycle
import FipsDropbox.Storage.PrintRuns
import FipsDropbox.Storage.LongFiles
import FipsDropbox.Storage.Purge
import FipsDropbox.Storage.Substitution
import FipsDropbox.Storage.Integrity
import FipsDropbox.Audit.Event
import FipsDropbox.Audit.Log
import FipsDropbox.Audit.Chain
import FipsDropbox.Audit.Runs
import FipsDropbox.Audit.Crash
import FipsDropbox.Audit.Spelling
import FipsDropbox.Audit.Verdict
import FipsDropbox.Notifier.Senders
import FipsDropbox.Service.App
import FipsDropbox.Service.Frames
import FipsDropbox.Service.Redeem
import FipsDropbox.Service.Panics
import FipsDropbox.Service.Upload
import FipsDropbox.Service.Delivery
import FipsDropbox.Service.Atomicity
import FipsDropbox.Service.Interleaving
import FipsDropbox.Service.Slots
import FipsDropbox.Service.AuditView
import FipsDropbox.Service.Creation
import FipsDropbox.Service.Attested
import FipsDropbox.Service.Unaudited
import FipsDropbox.Service.Bearers
import FipsDropbox.Service.Refusals
import FipsDropbox.Service.Offboarding
import FipsDropbox.Service.Secrets
import FipsDropbox.Service.Guessing
import FipsDropbox.Service.Totality
import FipsDropbox.Service.Status
import FipsDropbox.Service.VendorChoice
import FipsDropbox.Service.Effects
import FipsDropbox.Web.Http
import FipsDropbox.Web.Auth
import FipsDropbox.Web.Login
import FipsDropbox.Web.Admin
import FipsDropbox.Web.Upload
import FipsDropbox.Web.Router
import FipsDropbox.Web.AdminOnly
import FipsDropbox.Web.Ownership
import FipsDropbox.Web.Export
import FipsDropbox.Web.Attestation
import FipsDropbox.Web.VendorChoice
import FipsDropbox.Web.Cookies
import FipsDropbox.Web.Download
import FipsDropbox.Web.ExportLink
import FipsDropbox.Web.AuditPage
import FipsDropbox.Web.SmsNotice
import FipsDropbox.Web.Calls
import FipsDropbox.Web.Strangers
import FipsDropbox.Web.Outage
import FipsDropbox.Web.Rendering
import FipsDropbox.Web.Routes
import FipsDropbox.Web.Handover
import FipsDropbox.Cli.InitCmd
import FipsDropbox.Cli.Bootstrap
import FipsDropbox.Cli.KekFile
import FipsDropbox.Cli.Retry
import FipsDropbox.Cli.RunService
import FipsDropbox.Cli.Restart
import FipsDropbox.Lib.Vault
import FipsDropbox.Service.Provenance
import FipsDropbox.Service.Refinement
import FipsDropbox.Web.SignedIn
