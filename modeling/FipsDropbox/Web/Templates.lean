import FipsDropbox.Lib.Json
import FipsDropbox.Lib.Markup
import FipsDropbox.Web.Http

/-!
# crates/web: templates

Each template as its markup and values, `base.html` filled with its blocks. A template
file loses its last newline, and nothing else is trimmed.
-/
namespace FipsDropbox.Web
open Utf8 Markup

def markup (s : String) : Piece := .markup s.toList

namespace Templates

/-- `base.html` around the blocks of a page. -/
def base (title heading headerRight content : List Piece) : List Piece :=
  markup "<!DOCTYPE html>
<html lang=\"en\">
<head>
<meta charset=\"utf-8\">
<meta name=\"viewport\" content=\"width=device-width, initial-scale=1\">
<title>" :: title ++
  markup "</title>
<style>
  body \x7b font-family: -apple-system, \"Segoe UI\", system-ui, sans-serif; max-width: 720px; margin: 40px auto; padding: 0 16px; color: #222; line-height: 1.45; \x7d
  h1, h2 \x7b font-weight: 500; margin: 0.2em 0; \x7d
  .card \x7b background: #f7f7f9; border: 1px solid #e0e0e4; border-radius: 8px; padding: 20px; margin: 16px 0; \x7d
  .card.error \x7b background: #fef0f0; border-color: #fbb; color: #a33; \x7d
  .card.success \x7b background: #f0faf2; border-color: #bde4c5; color: #186329; \x7d
  label \x7b display: block; margin: 12px 0 4px; font-size: 14px; color: #555; \x7d
  input[type=text], input[type=email], input[type=password] \x7b width: 100%; padding: 8px 10px; font-size: 15px; border: 1px solid #ccc; border-radius: 4px; box-sizing: border-box; font-family: inherit; \x7d
  button \x7b padding: 8px 16px; font-size: 15px; background: #0366d6; color: white; border: none; border-radius: 4px; cursor: pointer; \x7d
  button:hover \x7b background: #024ea4; \x7d
  .muted \x7b color: #666; font-size: 14px; \x7d
  .mono \x7b font-family: ui-monospace, Menlo, Consolas, monospace; \x7d
  header \x7b display: flex; justify-content: space-between; align-items: baseline; border-bottom: 1px solid #e0e0e4; padding-bottom: 8px; margin-bottom: 16px; \x7d
  header .right \x7b display: flex; align-items: baseline; gap: 12px; \x7d
  form.inline \x7b display: inline; \x7d
  footer \x7b margin-top: 40px; padding-top: 12px; border-top: 1px solid #eee; color: #888; font-size: 12px; text-align: center; \x7d
</style>
</head>
<body>
<header>
  <h1>" :: heading ++
  markup "</h1>
  <div class=\"right\">" :: headerRight ++
  markup "</div>
</header>
" :: content ++
  [markup "
<footer>
  fips-dropbox &middot; FIPS-inherited via Windows CNG (CMVP cert #4339)
</footer>
</body>
</html>"]

def errorCard : Option Text → List Piece
  | some msg => [markup "<div class=\"card error\">",
                .value msg,
                markup "</div>"]
  | none => []

def login (error : Option Text) : List Piece := base
  [markup "Sign in &middot; fips-dropbox"]
  [markup "Sign in"]
  []
  ([markup "\n"] ++
    errorCard error ++
    [markup "
<form class=\"card\" method=\"post\" action=\"/login\">
  <label>Email <input type=\"email\" name=\"email\" required autofocus></label>
  <label>Password <input type=\"password\" name=\"password\" required></label>
  <div style=\"margin-top: 16px;\"><button type=\"submit\">Sign in</button></div>
</form>
"])

def dashboard (userEmail fipsStatus : Text) : List Piece := base
  [markup "Dashboard &middot; fips-dropbox"]
  [markup "Dashboard"]
  ([markup "
<span class=\"muted\">",
     .value userEmail,
     markup "</span>
<form class=\"inline\" method=\"post\" action=\"/logout\">
  <button type=\"submit\">Sign out</button>
</form>
"])
  ([markup "
<div class=\"card\">
  <h2>System status</h2>
  <p>FIPS mode: <strong>",
     .value fipsStatus,
     markup "</strong></p>
  <p>Crypto module: <strong>Windows CNG (CMVP cert #4339)</strong> &mdash; inherited</p>
</div>
<div class=\"card\">
  <h2>Send a file</h2>
  <p>Upload a file, pick a recipient, and we'll generate a one-time share link and access code for delivery.</p>
  <p style=\"margin-top: 16px;\">
    <a href=\"/shares/new\"><button type=\"button\">Send a file</button></a>
    <a href=\"/shares\" style=\"margin-left: 12px;\">View outbound shares &rarr;</a>
  </p>
</div>
<div class=\"card\">
  <h2>Workstation agents</h2>
  <p>Generate API tokens for the tray agents running on your shop's workstations.</p>
  <p style=\"margin-top: 16px;\"><a href=\"/tokens\"><button type=\"button\">Manage tokens</button></a></p>
</div>
<div class=\"card\">
  <h2>Audit log</h2>
  <p>Every authentication, share, and revocation is hash-chained and append-only. Export for your C3PAO.</p>
  <p style=\"margin-top: 16px;\"><a href=\"/audit\"><button type=\"button\">View audit log</button></a></p>
</div>
<div class=\"card\">
  <h2>Coming soon</h2>
  <p class=\"muted\">Vendor list, outbound-share history with revoke, audit log viewer, and the right-click Explorer integration.</p>
</div>
"])

def redeemPrompt (token : Text) (error : Option Text) : List Piece := base
  [markup "Secure file share"]
  [markup "Secure file share"]
  []
  ([markup "\n"] ++
    errorCard error ++
    [markup "
<div class=\"card\">
  <p>Someone has shared a secure file with you.</p>
  <p>Enter the access code that was sent to your phone to download it.</p>
  <form method=\"post\" action=\"/r/",
     .value token,
     markup "\">
    <label>Access code <input type=\"text\" class=\"mono\" name=\"access_code\" required autofocus autocomplete=\"one-time-code\" placeholder=\"ABC-DEF-GHJ-KMN-PQR\"></label>
    <div style=\"margin-top: 16px;\"><button type=\"submit\">Download file</button></div>
  </form>
  <p class=\"muted\" style=\"margin-top: 24px;\">The code is case-sensitive and expires when the share does.</p>
</div>
"])

def auditRow (e : AuditRow) : List Piece :=
  [markup "
        <tr style=\"border-bottom: 1px solid #f0f0f0; vertical-align: top;\">
          <td style=\"padding: 6px 4px;\" class=\"mono muted\">",
   .value e.ts,
   markup "</td>
          <td style=\"padding: 6px 4px;\" class=\"mono\">",
   .value e.event,
   markup "</td>
          <td style=\"padding: 6px 4px;\">
            "] ++
  (if e.outcome = "success".toList then
      [markup "<span style=\"color: #186329;\">",
       .value e.outcome,
       markup "</span>
            "]
    else if e.outcome = "denied".toList then
      [markup "<span style=\"color: #a33;\">",
       .value e.outcome,
       markup "</span>
            "]
    else
      [markup "<span style=\"color: #b57a00;\">",
       .value e.outcome,
       markup "</span>
            "]) ++
  [markup "
          </td>
          <td style=\"padding: 6px 4px;\" class=\"muted\">
            <div class=\"mono\">",
   .value e.actorShort,
   markup "</div>
            <div style=\"font-size: 11px;\">",
   .value e.actorIp,
   markup "</div>
          </td>
          <td style=\"padding: 6px 4px;\" class=\"mono muted\" style=\"font-size: 11px; word-break: break-all;\">
            ",
   .value e.targetMetaShort,
   markup "
          </td>
        </tr>
        "]

def selectedIf (filterValue : Text) (option : String) : List Piece :=
  if filterValue = option.toList then [markup " selected"] else []

def audit (events : List AuditRow) (chainValid : Bool) (eventsChecked : ℕ)
    (breakAtDisplay filterValue csvQuery : Text) : List Piece := base
  [markup "Audit log &middot; fips-dropbox"]
  [markup "Audit log"]
  ([markup "
<a href=\"/audit.csv",
     .value csvQuery,
     markup "\">Export CSV</a>
&middot;
<a href=\"/\">Dashboard</a>
"])
  ([markup "\n\n"] ++
    (if chainValid then
        [markup "
<div class=\"card success\">
  <strong>&#10003; Hash chain verified.</strong>
  <span class=\"muted\">",
         .value (Json.decimal eventsChecked),
         markup " event"] ++
        (if eventsChecked ≠ 1 then
            [markup "s"]
          else []) ++
        [markup " on disk, chain intact from genesis.</span>
</div>
"]
      else
        [markup "
<div class=\"card error\">
  <strong>&#10005; Hash chain broken at event index ",
         .value breakAtDisplay,
         markup ".</strong>
  <span class=\"muted\">The log has been tampered with or is corrupted. Preserve the file and investigate.</span>
</div>
"]) ++
    [markup "

<form class=\"card\" method=\"get\" action=\"/audit\">
  <label>Filter by event prefix
    <select name=\"filter\" onchange=\"this.form.submit()\">
      <option value=\"\""] ++
    selectedIf filterValue "" ++
    [markup ">All events</option>
      <option value=\"auth.\""] ++
    selectedIf filterValue "auth." ++
    [markup ">auth.*</option>
      <option value=\"share.\""] ++
    selectedIf filterValue "share." ++
    [markup ">share.*</option>
      <option value=\"api_token.\""] ++
    selectedIf filterValue "api_token." ++
    [markup ">api_token.*</option>
    </select>
  </label>
  <noscript><button type=\"submit\">Apply</button></noscript>
</form>

<div class=\"card\">
  "] ++
    (if events.isEmpty then
        [markup "
    <p class=\"muted\">No events match.</p>
  "]
      else
        [markup "
    <table style=\"width: 100%; border-collapse: collapse; font-size: 13px;\">
      <thead>
        <tr style=\"text-align: left; border-bottom: 1px solid #ddd;\">
          <th style=\"padding: 6px 4px;\">Timestamp (UTC)</th>
          <th style=\"padding: 6px 4px;\">Event</th>
          <th style=\"padding: 6px 4px;\">Outcome</th>
          <th style=\"padding: 6px 4px;\">Actor</th>
          <th style=\"padding: 6px 4px;\">Target / meta</th>
        </tr>
      </thead>
      <tbody>
        "] ++
        events.flatMap auditRow ++
        [markup "
      </tbody>
    </table>
  "]) ++
    [markup "
</div>
"])

def shareRow (s : ShareRow) : List Piece :=
  [markup "
        <tr style=\"border-bottom: 1px solid #f0f0f0;\">
          <td style=\"padding: 8px 4px;\" class=\"muted\">",
   .value s.created,
   markup "</td>
          <td style=\"padding: 8px 4px;\">
            <div>",
   .value s.vendorName,
   markup "</div>
            <div class=\"muted\" style=\"font-size: 12px;\">",
   .value s.vendorEmail,
   markup "</div>
          </td>
          <td style=\"padding: 8px 4px;\">
            <div>",
   .value s.filename,
   markup "</div>
            "] ++
  (match s.note with
    | some note => [markup "<div class=\"muted\" style=\"font-size: 12px;\">",
         .value note,
         markup "</div>"]
    | none => []) ++
  [markup "
          </td>
          <td style=\"padding: 8px 4px;\" class=\"muted\">",
   .value (Json.decimal s.sizeKb.toNat),
   markup " KB</td>
          <td style=\"padding: 8px 4px;\">",
   .value (Json.decimal s.downloadCount.toNat),
   markup "&nbsp;/&nbsp;",
   .value (Json.decimal s.maxDownloads.toNat),
   markup "</td>
          <td style=\"padding: 8px 4px;\" class=\"muted\">",
   .value s.expires,
   markup "</td>
          <td style=\"padding: 8px 4px;\">
            "] ++
  (if s.status = "active".toList then
      [markup "<span style=\"color: #186329;\">active</span>
            "]
    else if s.status = "revoked".toList then
      [markup "<span style=\"color: #a33;\">revoked</span>
            "]
    else if s.status = "expired".toList then
      [markup "<span style=\"color: #999;\">expired</span>
            "]
    else
      [markup "<span style=\"color: #0366d6;\">",
       .value s.status,
       markup "</span>
            "]) ++
  [markup "
          </td>
          <td style=\"padding: 8px 4px; text-align: right;\">
            "] ++
  (if s.isActive then
      [markup "
            <form class=\"inline\" method=\"post\" action=\"/shares/",
       .value s.id,
       markup "/revoke\" onsubmit=\"return confirm('Revoke this share? The vendor will no longer be able to download.');\">
              <button type=\"submit\" style=\"background: #a33;\">Revoke</button>
            </form>
            "]
    else []) ++
  [markup "
          </td>
        </tr>
        "]

def shares (shares : List ShareRow) : List Piece := base
  [markup "Shares &middot; fips-dropbox"]
  [markup "Outbound shares"]
  [markup "
<a href=\"/shares/new\">Send another</a>
&middot;
<a href=\"/\">Dashboard</a>
"]
  ([markup "
<div class=\"card\">
  "] ++
    (if shares.isEmpty then
        [markup "
    <p class=\"muted\">No shares yet. <a href=\"/shares/new\">Send the first one</a>.</p>
  "]
      else
        [markup "
    <table style=\"width: 100%; border-collapse: collapse;\">
      <thead>
        <tr style=\"text-align: left; border-bottom: 1px solid #ddd;\">
          <th style=\"padding: 8px 4px;\">Created</th>
          <th style=\"padding: 8px 4px;\">Vendor</th>
          <th style=\"padding: 8px 4px;\">File</th>
          <th style=\"padding: 8px 4px;\">Size</th>
          <th style=\"padding: 8px 4px;\">Downloads</th>
          <th style=\"padding: 8px 4px;\">Expires</th>
          <th style=\"padding: 8px 4px;\">Status</th>
          <th style=\"padding: 8px 4px;\"></th>
        </tr>
      </thead>
      <tbody>
        "] ++
        shares.flatMap shareRow ++
        [markup "
      </tbody>
    </table>
  "]) ++
    [markup "
</div>
"])

def tokenRow (t : TokenRow) : List Piece :=
  [markup "
        <tr style=\"border-bottom: 1px solid #f0f0f0;\">
          <td style=\"padding: 8px 4px;\">",
   .value t.label,
   markup "</td>
          <td style=\"padding: 8px 4px;\" class=\"muted\">",
   .value t.created,
   markup "</td>
          <td style=\"padding: 8px 4px;\" class=\"muted\">",
   .value t.lastSeen,
   markup "</td>
          <td style=\"padding: 8px 4px;\">
            "] ++
  (if t.revoked then
      [markup "<span style=\"color: #a33;\">revoked</span>
            "]
    else
      [markup "<span style=\"color: #186329;\">active</span>
            "]) ++
  [markup "
          </td>
          <td style=\"padding: 8px 4px; text-align: right;\">
            "] ++
  (if !t.revoked then
      [markup "
            <form class=\"inline\" method=\"post\" action=\"/tokens/",
       .value t.id,
       markup "/revoke\" onsubmit=\"return confirm('Revoke this token? The workstation will immediately lose access.');\">
              <button type=\"submit\" style=\"background: #a33;\">Revoke</button>
            </form>
            "]
    else []) ++
  [markup "
          </td>
        </tr>
        "]

def tokens (tokens : List TokenRow) : List Piece := base
  [markup "API tokens &middot; fips-dropbox"]
  [markup "API tokens"]
  [markup "
<a href=\"/\">Back to dashboard</a>
"]
  ([markup "
<div class=\"card\">
  <p>Create one token per workstation that runs the tray agent. The raw token is shown only once &mdash; paste it into the agent's Settings &rarr; Server tab.</p>
  <form method=\"post\" action=\"/tokens\">
    <label>Label for this workstation <input type=\"text\" name=\"label\" required placeholder=\"Dan's desktop\" maxlength=\"64\"></label>
    <div style=\"margin-top: 16px;\"><button type=\"submit\">Generate token</button></div>
  </form>
</div>

<div class=\"card\">
  <h2>Existing tokens</h2>
  "] ++
    (if tokens.isEmpty then
        [markup "
    <p class=\"muted\">No tokens yet.</p>
  "]
      else
        [markup "
    <table style=\"width: 100%; border-collapse: collapse;\">
      <thead>
        <tr style=\"text-align: left; border-bottom: 1px solid #ddd;\">
          <th style=\"padding: 8px 4px;\">Label</th>
          <th style=\"padding: 8px 4px;\">Created</th>
          <th style=\"padding: 8px 4px;\">Last seen</th>
          <th style=\"padding: 8px 4px;\">Status</th>
          <th style=\"padding: 8px 4px;\"></th>
        </tr>
      </thead>
      <tbody>
        "] ++
        tokens.flatMap tokenRow ++
        [markup "
      </tbody>
    </table>
  "]) ++
    [markup "
</div>
"])

def tokenCreated (label rawToken : Text) : List Piece := base
  [markup "Token generated &middot; fips-dropbox"]
  [markup "Token generated"]
  [markup "
<a href=\"/tokens\">Back to tokens</a>
"]
  ([markup "
<div class=\"card success\">
  <p><strong>Token created for &ldquo;",
     .value label,
     markup "&rdquo;.</strong></p>
</div>

<div class=\"card\" style=\"background: #fffdf0; border-color: #e5d98b;\">
  <h2>Token (shown only once)</h2>
  <p class=\"mono\" style=\"font-size: 16px; word-break: break-all; padding: 12px; background: white; border: 1px solid #ddd; border-radius: 4px;\">",
     .value rawToken,
     markup "</p>
  <p class=\"muted\"><strong>Copy this now.</strong> If you leave this page without copying, you'll need to revoke and create a new token.</p>
</div>

<div class=\"card\">
  <h2>What to do with it</h2>
  <p>Open the tray agent on the workstation &rarr; Settings &rarr; Server tab &rarr; paste into &ldquo;API token.&rdquo; Click <em>Test connection</em> to verify.</p>
</div>
"])

def shareNew (error : Option Text) : List Piece := base
  [markup "Send a file &middot; fips-dropbox"]
  [markup "Send a file"]
  [markup "
<a href=\"/\">Back to dashboard</a>
"]
  ([markup "\n"] ++
    errorCard error ++
    [markup "
<form class=\"card\" method=\"post\" action=\"/shares/new\" enctype=\"multipart/form-data\">
  <label>File <input type=\"file\" name=\"file\" required></label>

  <h2 style=\"margin-top: 24px;\">Recipient</h2>
  <label>Company name <input type=\"text\" name=\"vendor_display_name\" required placeholder=\"Acme Tool &amp; Die\"></label>
  <label>Email <input type=\"email\" name=\"vendor_email\" required placeholder=\"tom@acmetoolndie.com\"></label>
  <label>Phone (optional — for SMS access code) <input type=\"text\" name=\"vendor_phone\" placeholder=\"+1 555-123-9999\"></label>

  <h2 style=\"margin-top: 24px;\">Options</h2>
  <label>Expires in
    <select name=\"expires_in_hours\">
      <option value=\"24\">24 hours</option>
      <option value=\"72\" selected>72 hours</option>
      <option value=\"168\">7 days</option>
      <option value=\"720\">30 days</option>
    </select>
  </label>
  <label>Maximum downloads
    <select name=\"max_downloads\">
      <option value=\"1\">1 (single download)</option>
      <option value=\"3\" selected>3</option>
      <option value=\"10\">10</option>
      <option value=\"1000000\">unlimited</option>
    </select>
  </label>
  <label>Note to recipient (optional)
    <input type=\"text\" name=\"note\" placeholder=\"Rev C — supersedes the earlier revision\">
  </label>

  <div class=\"card\" style=\"margin-top: 20px; background: #fffdf0; border-color: #e5d98b;\">
    <label style=\"display: flex; align-items: flex-start; gap: 8px;\">
      <input type=\"checkbox\" name=\"cui_attested\" value=\"1\" required style=\"width: auto; margin-top: 4px;\">
      <span>I attest this file is correctly marked as CUI (or is public information not subject to CUI handling) and that this recipient is authorized to receive it.</span>
    </label>
  </div>

  <div style=\"margin-top: 16px;\"><button type=\"submit\">Send</button></div>
</form>
"])

def shareCreated (vendorEmail : Text) (vendorPhone : Option Text) (shareUrl accessCode : Text)
    (notificationsSent smsSent : Bool) : List Piece := base
  [markup "Share created &middot; fips-dropbox"]
  [markup "Share created"]
  [markup "
<a href=\"/shares/new\">Send another</a>
&middot;
<a href=\"/\">Dashboard</a>
"]
  ([markup "
<div class=\"card success\">
  <p><strong>Share created for ",
     .value vendorEmail,
     markup ".</strong></p>
  "] ++
    (if notificationsSent then
        [markup "
    <p class=\"muted\">The recipient has been notified by email"] ++
        (if smsSent then
            [markup " and SMS"]
          else []) ++
        [markup ".</p>
  "]
      else
        [markup "
    <p class=\"muted\">No notifier is configured yet &mdash; deliver the link and code manually, as shown below.</p>
  "]) ++
    [markup "
</div>

<div class=\"card\">
  <h2>Share link (deliver by email)</h2>
  <p class=\"mono\" style=\"font-size: 15px; word-break: break-all; padding: 12px; background: white; border: 1px solid #ddd; border-radius: 4px;\">",
     .value shareUrl,
     markup "</p>
</div>

<div class=\"card\" style=\"background: #fffdf0; border-color: #e5d98b;\">
  <h2>Access code (deliver by SMS or phone &mdash; not email)</h2>
  <p class=\"mono\" style=\"font-size: 24px; letter-spacing: 2px; padding: 12px; background: white; border: 1px solid #ddd; border-radius: 4px; text-align: center;\">",
     .value accessCode,
     markup "</p>
  <p class=\"muted\"><strong>This code is shown only once.</strong> If you navigate away without delivering it, the share must be revoked and recreated.</p>
  "] ++
    (match vendorPhone with
      | some phone => [markup "
    <p class=\"muted\">Recipient phone on file: ",
           .value phone,
           markup "</p>
  "]
      | none => []) ++
    [markup "
</div>

<p class=\"muted\" style=\"margin-top: 24px;\">
  The recipient will open the link, enter the access code, and download the file. All activity is recorded in the audit log.
</p>
"])

end Templates

/-- The template of a page, with its data. -/
def Page.pieces : Page → List Piece
  | .login error => Templates.login error
  | .dashboard userEmail fipsStatus => Templates.dashboard userEmail fipsStatus
  | .redeemPrompt token error => Templates.redeemPrompt token error
  | .audit events chainValid eventsChecked breakAtDisplay filterValue csvQuery =>
      Templates.audit events chainValid eventsChecked breakAtDisplay filterValue csvQuery
  | .shares rows => Templates.shares rows
  | .tokens rows => Templates.tokens rows
  | .tokenCreated label rawToken => Templates.tokenCreated label rawToken
  | .shareNew error => Templates.shareNew error
  | .shareCreated vendorEmail vendorPhone shareUrl accessCode notificationsSent smsSent =>
      Templates.shareCreated vendorEmail vendorPhone shareUrl accessCode notificationsSent smsSent

/-- `Template::render`, with the escaper of the template engine. -/
def Page.render (escape : Char → Text) (p : Page) : Text := Markup.render escape p.pieces

end FipsDropbox.Web
