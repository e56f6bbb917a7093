import FipsDropbox.Web.Templates

/-!
# What a browser makes of a page

Whatever data a page is given, a browser reads the template's tags with the data in their
places, and the links and forms are those that the template means.
-/
set_option maxRecDepth 20000

namespace FipsDropbox.Web
open Utf8 Markup

/-- How the template engine documents its escaping of HTML. -/
def Documented (escape : Char → Text) : Prop := ∀ c, escape c =
  if c = '<' then "&lt;".toList
  else if c = '>' then "&gt;".toList
  else if c = '&' then "&amp;".toList
  else if c = '"' then "&quot;".toList
  else if c = '\'' then "&#x27;".toList
  else [c]

theorem Documented.escapes {escape : Char → Text} (h : Documented escape) : Escapes escape := by
  intro c
  rw [h c]
  split_ifs with hlt hgt hamp hquot hapos
  · exact .inr ⟨"lt".toList, rfl, List.all_eq_true.mp (by decide), hlt ▸ by decide⟩
  · exact .inr ⟨"gt".toList, rfl, List.all_eq_true.mp (by decide), hgt ▸ by decide⟩
  · exact .inr ⟨"amp".toList, rfl, List.all_eq_true.mp (by decide), hamp ▸ by decide⟩
  · exact .inr ⟨"quot".toList, rfl, List.all_eq_true.mp (by decide), hquot ▸ by decide⟩
  · exact .inr ⟨"#x27".toList, rfl, List.all_eq_true.mp (by decide), hapos ▸ by decide⟩
  · exact .inl ⟨rfl, hlt, hamp, hquot⟩

def linkTo (url : String) : Target := ⟨.get, url.toList⟩
def formTo (url : String) : Target := ⟨.post, url.toList⟩

def revocation (page : String) (id : Text) : Target := ⟨.post, page.toList ++ id ++ "/revoke".toList⟩

/-- The links and forms of a page, in order. -/
def Page.leadsTo : Page → List Target
  | .login _ => [formTo "/login"]
  | .dashboard .. => [formTo "/logout", linkTo "/shares/new", linkTo "/shares", linkTo "/tokens", linkTo "/audit"]
  | .redeemPrompt token _ => [⟨.post, "/r/".toList ++ token⟩]
  | .audit _ _ _ _ _ csvQuery => [⟨.get, "/audit.csv".toList ++ csvQuery⟩, linkTo "/", linkTo "/audit"]
  | .shares rows =>
      linkTo "/shares/new" :: linkTo "/" ::
        if rows.isEmpty then [linkTo "/shares/new"]
        else rows.flatMap fun s => if s.isActive then [revocation "/shares/" s.id] else []
  | .tokens rows =>
      linkTo "/" :: formTo "/tokens" ::
        rows.flatMap fun t => if t.revoked then [] else [revocation "/tokens/" t.id]
  | .tokenCreated .. => [linkTo "/tokens"]
  | .shareNew _ => [linkTo "/", formTo "/shares/new"]
  | .shareCreated .. => [linkTo "/shares/new", linkTo "/"]

section
variable {s : State} {ps qs : List Piece} {ts us : List Target} {l : Text}

/-- Where the machine ends up on markup between tags, and the links and forms in it. -/
def scan (l : Text) : State × List Target := ((run .data l).1, targets (run .data l).2)

theorem scan_eq (h : scan l = (s, ts)) : (run .data l).1 = s ∧ targets (run .data l).2 = ts := Prod.mk.inj h

/-- Markup is read by running the machine on its characters. -/
theorem spans_literal (h : scan l = (s, ts)) : Spans .data [markup (.ofList l)] s ts := by
  rw [markup, String.toList_ofList]
  exact spans_markup (scan_eq h).1 (scan_eq h).2

theorem spans_links (ts : List Target) (h : scan l = (.data, ts)) : Spans .data [markup (.ofList l)] .data ts :=
  spans_literal h

theorem spans_plain (h : scan l = (.data, [])) : Spans .data [markup (.ofList l)] .data [] := spans_literal h

theorem spans_before (h : scan l = (.data, [])) (hrest : Spans .data ps .data us) :
    Spans .data (markup (.ofList l) :: ps) .data us := (spans_plain h).append hrest

theorem spans_text (v : Text) (hrest : Spans .data ps .data us) : Spans .data (.value v :: ps) .data us :=
  (spans_value v).append hrest

theorem spans_and (h : Spans .data ps .data ts) (h' : Spans .data qs .data us) :
    Spans .data (ps ++ qs) .data (ts ++ us) := h.append h'

theorem spans_ite {c : Prop} [Decidable c] (hyes : Spans .data ps .data ts) (hno : Spans .data qs .data us) :
    Spans .data (if c then ps else qs) .data (if c then ts else us) := by
  by_cases h : c
  · rw [if_pos h, if_pos h]
    exact hyes
  · rw [if_neg h, if_neg h]
    exact hno

theorem spans_choice {c : Prop} [Decidable c] (hyes : Spans .data ps .data []) (hno : Spans .data qs .data []) :
    Spans .data (if c then ps else qs) .data [] := by
  have h : Spans .data (if c then ps else qs) .data (if c then [] else []) := spans_ite hyes hno
  rwa [ite_self] at h

def link : Tag := ⟨"a".toList, []⟩
def postForm : Tag := ⟨"form".toList, [("method".toList, "post".toList)]⟩
def inlineForm : Tag := ⟨"form".toList, [("class".toList, "inline".toList), ("method".toList, "post".toList)]⟩

/-- Markup up to an address, the address, and the markup behind it. -/
theorem spans_address {rest : Text} {m : Method} (tag : Tag) (attr w v : Text)
    (htarget : ∀ u, targets [.startTag (tag.withAttr attr u)] = [⟨m, u⟩])
    (hopen : scan l = (.value tag attr .double w, [])) (hrest : scan rest = (.data, ts)) :
    Spans .data [markup (.ofList l), .value v, markup (.ofList ('"' :: '>' :: rest))] .data (⟨m, w ++ v⟩ :: ts) := by
  have h := spans_hole (scan_eq hopen) (fun x => run_close tag attr x rest) (scan_eq hrest) v
  rw [htarget] at h
  rwa [markup, markup, String.toList_ofList, String.toList_ofList]

end

namespace Templates

theorem spans_base {title heading headerRight content : List Piece} {ts us : List Target}
    (htitle : Spans .data title .data []) (hheading : Spans .data heading .data [])
    (hright : Spans .data headerRight .data ts) (hcontent : Spans .data content .data us) :
    Spans .data (base title heading headerRight content) .data (ts ++ us) := by
  have h : Spans .data (base title heading headerRight content) .data
      (((([] ++ []) ++ ts) ++ us) ++ []) :=
    ((((spans_before rfl htitle).append (spans_before rfl hheading)).append
      (spans_before rfl hright)).append (spans_before rfl hcontent)).append (spans_plain rfl)
  simpa using h

theorem spans_errorCard (error : Option Text) : Spans .data (errorCard error) .data [] := by
  cases error with
  | none => exact .nil _
  | some msg => exact spans_before rfl (spans_text msg (spans_plain rfl))

theorem spans_login (error : Option Text) : Spans .data (login error) .data (Page.login error).leadsTo := by
  have h : Spans .data (login error) .data ([] ++ (([] ++ []) ++ [formTo "/login"])) :=
    spans_base (spans_plain rfl) (spans_plain rfl) (.nil _)
      ((spans_and (spans_plain rfl) (spans_errorCard error)).append (spans_links [formTo "/login"] rfl))
  exact h

theorem spans_dashboard (userEmail fipsStatus : Text) :
    Spans .data (dashboard userEmail fipsStatus) .data (Page.dashboard userEmail fipsStatus).leadsTo := by
  have h : Spans .data (dashboard userEmail fipsStatus) .data
      ([formTo "/logout"] ++ [linkTo "/shares/new", linkTo "/shares", linkTo "/tokens", linkTo "/audit"]) :=
    spans_base (spans_plain rfl) (spans_plain rfl)
      (spans_before rfl (spans_text userEmail (spans_links [formTo "/logout"] rfl)))
      (spans_before rfl (spans_text fipsStatus
        (spans_links [linkTo "/shares/new", linkTo "/shares", linkTo "/tokens", linkTo "/audit"] rfl)))
  exact h

theorem spans_redeemPrompt (token : Text) (error : Option Text) :
    Spans .data (redeemPrompt token error) .data (Page.redeemPrompt token error).leadsTo := by
  have h : Spans .data (redeemPrompt token error) .data
      ([] ++ (([] ++ []) ++ [⟨.post, "/r/".toList ++ token⟩])) :=
    spans_base (spans_plain rfl) (spans_plain rfl) (.nil _)
      ((spans_and (spans_plain rfl) (spans_errorCard error)).append
        (spans_address postForm "action".toList "/r/".toList token (fun _ => rfl) rfl rfl))
  exact h

theorem spans_auditRow (e : AuditRow) : Spans .data (auditRow e) .data [] := by
  have h : Spans .data (auditRow e) .data (([] ++ []) ++ []) :=
    ((spans_before rfl (spans_text e.ts (spans_before rfl (spans_text e.event (spans_plain rfl))))).append
      (spans_choice (spans_before rfl (spans_text e.outcome (spans_plain rfl)))
        (spans_choice (spans_before rfl (spans_text e.outcome (spans_plain rfl)))
          (spans_before rfl (spans_text e.outcome (spans_plain rfl)))))).append
      (spans_before rfl (spans_text e.actorShort (spans_before rfl (spans_text e.actorIp
        (spans_before rfl (spans_text e.targetMetaShort (spans_plain rfl)))))))
  exact h

def option (value : String) : Tag := ⟨"option".toList, [("value".toList, value.toList)]⟩

/-- Markup up to the value of the first option. -/
theorem spans_toOption {l : Text} (value : String) (ts : List Target)
    (h : scan l = (.afterValue (option value), ts)) :
    Spans .data [markup (.ofList l)] (.afterValue (option value)) ts := spans_literal h

/-- Behind the value of an option, selected or not, up to the next option or the end. -/
theorem spans_selectedIf {ps : List Piece} {ts : List Target} {s s' : State} {value : String} {rest : Text}
    (filterValue : Text) (h : Spans s ps (.afterValue (option value)) ts) (hrest : scan rest = (s', [])) :
    Spans s (ps ++ selectedIf filterValue value ++ [markup (.ofList ('>' :: rest))]) s' ts := by
  have hend : ∀ t : State, ∀ tag : Tag, run t ('>' :: rest) = after [.startTag tag] (run .data rest) →
      Token.target (.startTag tag) = none → Spans t [markup (.ofList ('>' :: rest))] s' [] := by
    intro t tag hrun htag
    rw [markup, String.toList_ofList]
    refine spans_markup ?_ ?_
    · rw [hrun]
      exact (scan_eq hrest).1
    · rw [hrun, after, targets_append, (scan_eq hrest).2]
      simp [targets, htag]
  unfold selectedIf
  split_ifs
  · have hselected : Spans (.afterValue (option value)) [markup " selected"]
        (.attrName (option value) "selected".toList) [] := spans_markup rfl rfl
    simpa only [List.append_nil] using (h.append hselected).append (hend _ _ rfl rfl)
  · simpa only [List.append_nil] using h.append (hend _ _ rfl rfl)

theorem spans_audit (events : List AuditRow) (chainValid : Bool) (eventsChecked : ℕ)
    (breakAtDisplay filterValue csvQuery : Text) :
    Spans .data (audit events chainValid eventsChecked breakAtDisplay filterValue csvQuery) .data
      (Page.audit events chainValid eventsChecked breakAtDisplay filterValue csvQuery).leadsTo := by
  have hrows : Spans .data (events.flatMap auditRow) .data [] := by
    have h := spans_flatMap spans_auditRow events
    rwa [List.flatMap_eq_nil_iff.mpr fun _ _ => rfl] at h
  have h : Spans .data (audit events chainValid eventsChecked breakAtDisplay filterValue csvQuery) .data
      ([⟨.get, "/audit.csv".toList ++ csvQuery⟩, linkTo "/"] ++ (((([] ++ []) ++ [linkTo "/audit"]) ++ []) ++ [])) := by
    refine spans_base (spans_plain rfl) (spans_plain rfl)
      (spans_address link "href".toList "/audit.csv".toList csvQuery (fun _ => rfl) rfl rfl) ?_
    refine Spans.append (Spans.append (spans_selectedIf filterValue (spans_selectedIf filterValue
      (spans_selectedIf filterValue (spans_selectedIf filterValue
        (((spans_plain rfl).append (spans_choice ?_ ?_)).append (spans_toOption "" [linkTo "/audit"] rfl)) rfl) rfl)
          rfl) rfl) (spans_choice ?_ ?_)) (spans_plain rfl)
    · exact ((spans_before rfl (spans_text _ (spans_plain rfl))).append
        (spans_choice (spans_plain rfl) (.nil _))).append (spans_plain rfl)
    · exact spans_before rfl (spans_text _ (spans_plain rfl))
    · exact spans_plain rfl
    · exact ((spans_plain rfl).append hrows).append (spans_plain rfl)
  exact h

def revokeThen (script rest : Text) : Text :=
  "/revoke".toList ++ ('"' :: ' ' :: 'o' :: "nsubmit".toList ++ '=' :: '"' :: script ++ '"' :: '>' :: rest)

theorem spans_revocation {b script rest w l : Text} (onsubmit label : String) (id : Text)
    (_honsubmit : onsubmit = .ofList script) (_hlabel : label = .ofList rest) (hbehind : b = revokeThen script rest)
    (hscript : script.all isValueChar = true)
    (hopen : scan l = (.value inlineForm "action".toList .double w, [])) (hrest : scan rest = (.data, [])) :
    Spans .data [markup (.ofList l), .value id, markup (.ofList b)] .data [⟨.post, w ++ id ++ "/revoke".toList⟩] := by
  have hclose : ∀ x, run (.value inlineForm "action".toList .double x) (revokeThen script rest) =
      after [.startTag ((inlineForm.withAttr "action".toList (x ++ "/revoke".toList)).withAttr
        ('o' :: "nsubmit".toList) script)] (run .data rest) :=
    fun x => run_close_next (List.all_eq_true.mp (by decide)) (List.all_eq_true.mp (by decide))
      (List.all_eq_true.mp hscript) inlineForm _ x _
  have h := spans_hole (scan_eq hopen) hclose (scan_eq hrest) id
  rwa [markup, markup, String.toList_ofList, String.toList_ofList, hbehind]

theorem spans_shareRow (s : ShareRow) :
    Spans .data (shareRow s) .data (if s.isActive then [revocation "/shares/" s.id] else []) := by
  have h : Spans .data (shareRow s) .data
      (((((([] ++ []) ++ []) ++ []) ++ []) ++ (if s.isActive then [revocation "/shares/" s.id] else [])) ++ []) := by
    refine spans_and (spans_and (spans_and (spans_and (spans_and (spans_and ?_ ?_) ?_) ?_) (spans_plain rfl))
      (spans_ite ?_ (.nil _))) (spans_plain rfl)
    · exact spans_before rfl (spans_text _ (spans_before rfl (spans_text _ (spans_before rfl (spans_text _
        (spans_before rfl (spans_text _ (spans_plain rfl))))))))
    · cases s.note with
      | none => exact .nil _
      | some note => exact spans_before rfl (spans_text note (spans_plain rfl))
    · exact spans_before rfl (spans_text _ (spans_before rfl (spans_text _ (spans_before rfl (spans_text _
        (spans_before rfl (spans_text _ (spans_plain rfl))))))))
    · exact spans_choice (spans_plain rfl) (spans_choice (spans_plain rfl) (spans_choice (spans_plain rfl)
        (spans_before rfl (spans_text _ (spans_plain rfl)))))
    · exact spans_revocation
        "return confirm('Revoke this share? The vendor will no longer be able to download.');"
        "
              <button type=\"submit\" style=\"background: #a33;\">Revoke</button>
            </form>
            " s.id rfl rfl rfl rfl rfl rfl
  simpa only [List.nil_append, List.append_nil] using h

theorem spans_shares (rows : List ShareRow) : Spans .data (shares rows) .data (Page.shares rows).leadsTo := by
  have h : Spans .data (shares rows) .data ([linkTo "/shares/new", linkTo "/"] ++
      (([] ++ if rows.isEmpty then [linkTo "/shares/new"] else
        (([] ++ rows.flatMap fun s => if s.isActive then [revocation "/shares/" s.id] else []) ++ [])) ++ [])) :=
    spans_base (spans_plain rfl) (spans_plain rfl) (spans_links [linkTo "/shares/new", linkTo "/"] rfl)
      (spans_and (spans_and (spans_plain rfl) (spans_ite (spans_links [linkTo "/shares/new"] rfl)
        (spans_and (spans_and (spans_plain rfl) (spans_flatMap spans_shareRow rows)) (spans_plain rfl))))
        (spans_plain rfl))
  simp only [List.nil_append, List.append_nil] at h
  exact h

theorem spans_tokenRow (t : TokenRow) :
    Spans .data (tokenRow t) .data (if t.revoked then [] else [revocation "/tokens/" t.id]) := by
  have h : Spans .data (tokenRow t) .data
      (((([] ++ []) ++ []) ++ (if (!t.revoked) = true then [revocation "/tokens/" t.id] else [])) ++ []) := by
    refine spans_and (spans_and (spans_and (spans_and ?_ ?_) (spans_plain rfl)) (spans_ite ?_ (.nil _)))
      (spans_plain rfl)
    · exact spans_before rfl (spans_text _ (spans_before rfl (spans_text _
        (spans_before rfl (spans_text _ (spans_plain rfl))))))
    · exact spans_choice (spans_plain rfl) (spans_plain rfl)
    · exact spans_revocation
        "return confirm('Revoke this token? The workstation will immediately lose access.');"
        "
              <button type=\"submit\" style=\"background: #a33;\">Revoke</button>
            </form>
            " t.id rfl rfl rfl rfl rfl rfl
  cases hrevoked : t.revoked with
  | true => simpa [hrevoked] using h
  | false => simpa [hrevoked] using h

theorem spans_tokens (rows : List TokenRow) : Spans .data (tokens rows) .data (Page.tokens rows).leadsTo := by
  have h : Spans .data (tokens rows) .data ([linkTo "/"] ++
      (([formTo "/tokens"] ++ if rows.isEmpty then [] else
        (([] ++ rows.flatMap fun t => if t.revoked then [] else [revocation "/tokens/" t.id]) ++ [])) ++ [])) :=
    spans_base (spans_plain rfl) (spans_plain rfl) (spans_links [linkTo "/"] rfl)
      (spans_and (spans_and (spans_links [formTo "/tokens"] rfl) (spans_ite (spans_plain rfl)
        (spans_and (spans_and (spans_plain rfl) (spans_flatMap spans_tokenRow rows)) (spans_plain rfl))))
        (spans_plain rfl))
  cases rows with
  | nil => exact h
  | cons t rows =>
      simp only [List.nil_append, List.append_nil] at h
      exact h

theorem spans_tokenCreated (label rawToken : Text) :
    Spans .data (tokenCreated label rawToken) .data (Page.tokenCreated label rawToken).leadsTo := by
  have h : Spans .data (tokenCreated label rawToken) .data ([linkTo "/tokens"] ++ []) :=
    spans_base (spans_plain rfl) (spans_plain rfl) (spans_links [linkTo "/tokens"] rfl)
      (spans_before rfl (spans_text label (spans_before rfl (spans_text rawToken (spans_plain rfl)))))
  exact h

theorem spans_shareNew (error : Option Text) :
    Spans .data (shareNew error) .data (Page.shareNew error).leadsTo := by
  have h : Spans .data (shareNew error) .data ([linkTo "/"] ++ (([] ++ []) ++ [formTo "/shares/new"])) :=
    spans_base (spans_plain rfl) (spans_plain rfl) (spans_links [linkTo "/"] rfl)
      (spans_and (spans_and (spans_plain rfl) (spans_errorCard error)) (spans_links [formTo "/shares/new"] rfl))
  exact h

theorem spans_shareCreated (vendorEmail : Text) (vendorPhone : Option Text) (shareUrl accessCode : Text)
    (notificationsSent smsSent : Bool) :
    Spans .data (shareCreated vendorEmail vendorPhone shareUrl accessCode notificationsSent smsSent) .data
      (Page.shareCreated vendorEmail vendorPhone shareUrl accessCode notificationsSent smsSent).leadsTo := by
  have h : Spans .data (shareCreated vendorEmail vendorPhone shareUrl accessCode notificationsSent smsSent) .data
      ([linkTo "/shares/new", linkTo "/"] ++ (((([] ++ []) ++ []) ++ []) ++ [])) := by
    refine spans_base (spans_plain rfl) (spans_plain rfl) (spans_links [linkTo "/shares/new", linkTo "/"] rfl)
      (spans_and (spans_and (spans_and (spans_and ?_ (spans_choice ?_ (spans_plain rfl))) ?_) ?_) (spans_plain rfl))
    · exact spans_before rfl (spans_text _ (spans_plain rfl))
    · exact spans_and (spans_and (spans_plain rfl) (spans_choice (spans_plain rfl) (.nil _))) (spans_plain rfl)
    · exact spans_before rfl (spans_text _ (spans_before rfl (spans_text _ (spans_plain rfl))))
    · cases vendorPhone with
      | none => exact .nil _
      | some phone => exact spans_before rfl (spans_text phone (spans_plain rfl))
  exact h

end Templates

/-- Every template is read from its first character to its last, and leads where it should. -/
theorem Page.spans_pieces (p : Page) : Spans .data p.pieces .data p.leadsTo := by
  cases p with
  | login error => exact Templates.spans_login error
  | dashboard userEmail fipsStatus => exact Templates.spans_dashboard userEmail fipsStatus
  | redeemPrompt token error => exact Templates.spans_redeemPrompt token error
  | audit events chainValid eventsChecked breakAtDisplay filterValue csvQuery =>
      exact Templates.spans_audit events chainValid eventsChecked breakAtDisplay filterValue csvQuery
  | shares rows => exact Templates.spans_shares rows
  | tokens rows => exact Templates.spans_tokens rows
  | tokenCreated label rawToken => exact Templates.spans_tokenCreated label rawToken
  | shareNew error => exact Templates.spans_shareNew error
  | shareCreated vendorEmail vendorPhone shareUrl accessCode notificationsSent smsSent =>
      exact Templates.spans_shareCreated vendorEmail vendorPhone shareUrl accessCode notificationsSent smsSent

section
variable {escape : Char → Text}

theorem Page.run_render (h : Documented escape) (p : Page) : ∃ tokens,
    readPieces .data p.pieces = some (.data, tokens) ∧ run .data (p.render escape) = (.data, tokens) ∧
      targets tokens = p.leadsTo := by
  obtain ⟨tokens, hread, htargets⟩ := p.spans_pieces
  exact ⟨tokens, hread, Markup.run_render h.escapes hread, htargets⟩

/-- A page is read as its template means it, its links and forms are those of the
template, and no value of it adds, removes or changes a tag. -/
theorem Page.reads_as_meant (h : Documented escape) (p : Page) : ∃ tokens,
    readPieces .data p.pieces = some (.data, tokens) ∧ run .data (p.render escape) = (.data, tokens) ∧
      targets tokens = p.leadsTo ∧
      ∀ q : Page, p.pieces.map Piece.blank = q.pieces.map Piece.blank →
        shapes (run .data (q.render escape)).2 = shapes tokens := by
  obtain ⟨tokens, hread, hrun, htargets⟩ := p.run_render h
  refine ⟨tokens, hread, hrun, htargets, fun q hsame => ?_⟩
  have hshapes := shapes_render h.escapes hsame hread
  rw [← Page.render, ← Page.render, hrun] at hshapes
  exact hshapes.symm

end

/-- A message in the syntax of a link is read as its characters. -/
def hostileLogin : Page := .login (some "<a href=\"/logout\">'&amp;'</a>".toList)

theorem Page.reads_as_meant_sample : ∃ escape : Char → Text, ∃ tokens,
    readPieces .data hostileLogin.pieces = some (.data, tokens) ∧
      run .data (hostileLogin.render escape) = (.data, tokens) ∧ targets tokens = hostileLogin.leadsTo ∧
      ∀ q : Page, hostileLogin.pieces.map Piece.blank = q.pieces.map Piece.blank →
        shapes (run .data (q.render escape)).2 = shapes tokens :=
  ⟨_, Page.reads_as_meant (fun _ => rfl) hostileLogin⟩

end FipsDropbox.Web
