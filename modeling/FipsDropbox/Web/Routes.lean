import FipsDropbox.Web.Cookies
import FipsDropbox.Web.ExportLink
import FipsDropbox.Web.Rendering
import FipsDropbox.Web.Router

/-!
# crates/web: the routing table

`dispatch` finds the route of a method and an address. Every link and form of a page that
the service answers with leads to the route that it is meant for, with the identifier of
its row.
-/
set_option maxRecDepth 20000

namespace FipsDropbox.Web
open Utf8 Percent Exec Crypto Storage Service Markup

/-- What comes with a request besides its method and its address, as the framework reads
it: the forms of its body, and the answer to a path or a query that it cannot read. -/
structure Submission where
  headers : HeaderMap
  loginForm : Extracted LoginForm
  mintForm : Extracted TokenMintForm
  redeemForm : Extracted RedeemForm
  multipart : Extracted Multipart
  unreadable : Rejection

/-- A request at a route: the parameter of the path and the filter of the query, where
the route has one. -/
structure Incoming extends Submission where
  param : Extracted Text
  filter : Extracted Text

/-- `router`. -/
def router : List (String × List (Method × (Incoming → HttpRequest))) := [
  ("/", [(.get, fun i => .dashboard i.headers)]),
  ("/login", [(.get, fun i => .loginGet i.headers), (.post, fun i => .loginPost i.headers i.loginForm)]),
  ("/logout", [(.post, fun i => .logoutPost i.headers)]),
  ("/shares/new", [(.get, fun i => .shareNewGet i.headers), (.post, fun i => .shareNewPost i.headers i.multipart)]),
  ("/shares", [(.get, fun i => .sharesListGet i.headers)]),
  ("/shares/:id/revoke", [(.post, fun i => .shareRevoke i.headers i.param)]),
  ("/audit", [(.get, fun i => .auditGet i.headers i.filter)]),
  ("/audit.csv", [(.get, fun i => .auditCsv i.headers i.filter)]),
  ("/tokens", [(.get, fun i => .tokensGet i.headers), (.post, fun i => .tokensPost i.headers i.mintForm)]),
  ("/tokens/:id/revoke", [(.post, fun i => .tokenRevoke i.headers i.param)]),
  ("/api/shares", [(.post, fun i => .apiSharesPost i.headers i.multipart)]),
  ("/r/:token", [(.get, fun i => .redeemGet i.param),
    (.post, fun i => .redeemPost i.param i.headers i.redeemForm)]),
  ("/health", [(.get, fun _ => .health)])]

/-- The parameters of a path under a route. A parameter takes a whole part of the path that
is not empty. -/
def matchParts : List Text → List Text → Option (List Text)
  | [], [] => some []
  | (':' :: _) :: route, part :: path => if part.isEmpty then none else (matchParts route path).map (part :: ·)
  | fixed :: route, part :: path => if fixed = part then matchParts route path else none
  | _, _ => none

def splitQuery (url : Text) : Text × Text :=
  match url.span (· ≠ '?') with
  | (path, _ :: query) => (path, query)
  | (path, []) => (path, [])

def pathParam (unreadable : Rejection) (params : List Text) : Extracted Text :=
  match decode (percentDecode (encode (params.headD []))) with
  | some t => .ok t
  | none => .error unreadable

def queryFilter (unreadable : Rejection) (query : Text) : Extracted Text :=
  match auditQuery (encode query) with
  | some filter => .ok filter
  | none => .error unreadable

/-- The route of a path in parts, with its parameters. -/
def locate (parts : List Text) : Option (List Text × List (Method × (Incoming → HttpRequest))) :=
  router.findSome? fun route => (matchParts (route.1.toList.splitOn '/') parts).map (·, route.2)

/-- The request that reaches a handler; what has no route is answered by the framework. -/
def dispatch (sub : Submission) (t : Target) : Option HttpRequest := do
  let (path, query) := splitQuery t.url
  let (params, methods) ← locate (path.splitOn '/')
  let handler ← methods.lookup t.method
  pure (handler { sub with param := pathParam sub.unreadable params, filter := queryFilter sub.unreadable query })

/-- A text that is a whole part of a path and is spelled in it as it is. -/
structure PathPart (t : Text) : Prop where
  ne_nil : t ≠ []
  safe : IsUrlSafe t

/-- What an address is spelled in without being rewritten on the way. -/
def isAddressChar (c : Char) : Bool := isUnreserved c || c = '/' || c = '?' || c = '=' || c = '%'

theorem base64Digit_facts (n : ℕ) : isUnreserved (base64Digit n) = true ∧ base64Digit n ≠ '/' ∧ base64Digit n ≠ '?' ∧
    base64Digit n ≠ '%' ∧ (base64Digit n).toNat < 0x80 := by
  have hall : ("ABCDEFGHIJKLMNOPQRSTUVWXYZabcdefghijklmnopqrstuvwxyz0123456789-_".toList.all fun c =>
      decide (isUnreserved c = true ∧ c ≠ '/' ∧ c ≠ '?' ∧ c ≠ '%' ∧ c.toNat < 0x80)) = true := by decide
  exact of_decide_eq_true (List.all_eq_true.mp hall _ (base64Digit_mem n))

theorem IsUrlSafe.not_mem {t : Text} (h : IsUrlSafe t) : '/' ∉ t ∧ '?' ∉ t ∧ '%' ∉ t := by
  have hchar : ∀ c ∈ t, c ≠ '/' ∧ c ≠ '?' ∧ c ≠ '%' := by
    intro c hc
    obtain ⟨n, rfl⟩ := h c hc
    obtain ⟨-, hslash, hquery, hpercent, -⟩ := base64Digit_facts n
    exact ⟨hslash, hquery, hpercent⟩
  exact ⟨fun hm => (hchar _ hm).1 rfl, fun hm => (hchar _ hm).2.1 rfl, fun hm => (hchar _ hm).2.2 rfl⟩

theorem IsUrlSafe.address {t : Text} (h : IsUrlSafe t) : t.all isAddressChar = true := by
  apply List.all_eq_true.mpr
  intro c hc
  obtain ⟨n, rfl⟩ := h c hc
  rw [isAddressChar, (base64Digit_facts n).1]
  rfl

theorem pathParam_part {t : Text} (h : PathPart t) (unreadable : Rejection) : pathParam unreadable [t] = .ok t := by
  have hlow : ∀ c ∈ t, c.toNat < 0x80 := by
    intro c hc
    obtain ⟨n, rfl⟩ := h.safe c hc
    exact (base64Digit_facts n).2.2.2.2
  have hplain : ∀ b ∈ encode t, b ≠ 0x25 := by
    intro b hb heq
    subst heq
    exact not_mem_encode hlow (d := '%') (by decide) h.safe.not_mem.2.2 hb
  have hdecode := percentDecode_plain_append hplain []
  rw [List.append_nil, percentDecode_nil, List.append_nil] at hdecode
  rw [pathParam, List.headD_cons, hdecode, decode_encode]

theorem span_stop {path query : Text} (h : '?' ∉ path) :
    (path ++ '?' :: query).span (· ≠ '?') = (path, '?' :: query) := by
  have hne : ∀ c ∈ path, decide (c ≠ '?') = true := fun c hc => decide_eq_true fun he => h (he ▸ hc)
  rw [List.span_eq_takeWhile_dropWhile, List.takeWhile_append_of_pos hne, List.dropWhile_append_of_pos hne]
  simp

theorem splitQuery_query {path query : Text} (h : '?' ∉ path) : splitQuery (path ++ '?' :: query) = (path, query) := by
  rw [splitQuery, span_stop h]

theorem splitQuery_plain {url : Text} (h : '?' ∉ url) : splitQuery url = (url, []) := by
  have hne : ∀ c ∈ url, decide (c ≠ '?') = true := fun c hc => decide_eq_true fun he => h (he ▸ hc)
  have hspan : url.span (· ≠ '?') = (url, []) := by
    rw [List.span_eq_takeWhile_dropWhile, List.takeWhile_eq_self_iff.mpr hne, List.dropWhile_eq_nil_iff.mpr hne]
  rw [splitQuery, hspan]

theorem not_mem_intercalate {d : Char} (hd : d ≠ '/') {parts : List Text} (h : ∀ part ∈ parts, d ∉ part) :
    d ∉ List.intercalate ['/'] parts := by
  induction parts with
  | nil => exact List.not_mem_nil
  | cons part parts ih =>
      obtain ⟨hpart, hparts⟩ := List.forall_mem_cons.mp h
      cases parts with
      | nil =>
          rw [List.intercalate_singleton]
          exact hpart
      | cons part' parts =>
          rw [List.intercalate_cons_cons, List.mem_append, List.mem_append, List.mem_singleton]
          rintro ((hm | rfl) | hm)
          · exact hpart hm
          · exact hd rfl
          · exact ih hparts hm

theorem dispatch_parts (sub : Submission) (m : Method) {parts : List Text} (hne : parts ≠ [])
    (hparts : ∀ part ∈ parts, '/' ∉ part ∧ '?' ∉ part) :
    dispatch sub ⟨m, List.intercalate ['/'] parts⟩ = (do
      let (params, methods) ← locate parts
      let handler ← methods.lookup m
      pure (handler { sub with param := pathParam sub.unreadable params, filter := .ok [] })) := by
  have hquery : '?' ∉ List.intercalate ['/'] parts :=
    not_mem_intercalate (by decide) fun part hpart => (hparts part hpart).2
  have hsplit : (List.intercalate ['/'] parts).splitOn '/' = parts :=
    List.splitOn_intercalate '/' (fun part hpart => (hparts part hpart).1) hne
  rw [dispatch, splitQuery_plain hquery]
  simp only [hsplit]
  rfl

/-! ## Where the pages lead -/

/-- The filter that the export is asked for, as the link is read. -/
def exportedFilter (filter : Text) : Text := fromUtf8Lossy (percentDecode (encode (urlencode filter)))

/-- The requests that a page leads to, in order, where the export of a filter is that of
`exported`. -/
def Page.offers (sub : Submission) (exported : Text → Text) : Page → List HttpRequest
  | .login _ => [.loginPost sub.headers sub.loginForm]
  | .dashboard .. => [.logoutPost sub.headers, .shareNewGet sub.headers, .sharesListGet sub.headers,
      .tokensGet sub.headers, .auditGet sub.headers (.ok [])]
  | .redeemPrompt token _ => [.redeemPost (.ok token) sub.headers sub.redeemForm]
  | .audit _ _ _ _ filterValue _ => [.auditCsv sub.headers (.ok (exported filterValue)),
      .dashboard sub.headers, .auditGet sub.headers (.ok [])]
  | .shares rows =>
      .shareNewGet sub.headers :: .dashboard sub.headers ::
        if rows.isEmpty then [.shareNewGet sub.headers]
        else rows.flatMap fun s => if s.isActive then [.shareRevoke sub.headers (.ok s.id)] else []
  | .tokens rows =>
      .dashboard sub.headers :: .tokensPost sub.headers sub.mintForm ::
        rows.flatMap fun t => if t.revoked then [] else [.tokenRevoke sub.headers (.ok t.id)]
  | .tokenCreated .. => [.tokensGet sub.headers]
  | .shareNew _ => [.dashboard sub.headers, .shareNewPost sub.headers sub.multipart]
  | .shareCreated .. => [.shareNewGet sub.headers, .dashboard sub.headers]

/-- The identifiers that a page puts into addresses are parts of paths, and its query is
that of its filter. -/
def Page.Addressed : Page → Prop
  | .redeemPrompt token _ => PathPart token
  | .audit _ _ _ _ filterValue query => query = csvQuery filterValue
  | .shares rows => ∀ s ∈ rows, PathPart s.id
  | .tokens rows => ∀ t ∈ rows, PathPart t.id
  | _ => True

/-- The filter that the page shows, if it shows one, is ASCII. -/
def Page.AsciiFilter : Page → Prop
  | .audit _ _ _ _ filterValue _ => ∀ c ∈ filterValue, c.toNat < 0x80
  | _ => True

section
variable (sub : Submission)

/-- What is exported is what is shown exactly for an ASCII filter. -/
theorem Page.offers_exported_iff (p : Page) : p.offers sub exportedFilter = p.offers sub id ↔ p.AsciiFilter := by
  cases p with
  | audit events chainValid eventsChecked breakAtDisplay filterValue query =>
      simp only [Page.offers, Page.AsciiFilter, ← lossy_urlencode_iff, exportedFilter, id, List.cons.injEq,
        HttpRequest.auditCsv.injEq, Except.ok.injEq, and_true, true_and]
  | login | dashboard | redeemPrompt | shares | tokens | tokenCreated | shareNew | shareCreated =>
      exact iff_of_true rfl trivial

/-- The two routes of a share's link. -/
def atLink (token : Text) : Method → HttpRequest
  | .get => .redeemGet (.ok token)
  | .post => .redeemPost (.ok token) sub.headers sub.redeemForm

theorem dispatch_link {token : Text} (h : PathPart token) (m : Method) :
    dispatch sub ⟨m, "/r/".toList ++ token⟩ = some (atLink sub token m) := by
  have hurl : "/r/".toList ++ token = List.intercalate ['/'] [[], "r".toList, token] := by
    simp [List.intercalate, List.intersperse]
  have hparts : ∀ part ∈ [[], "r".toList, token], '/' ∉ part ∧ '?' ∉ part := by
    intro part hpart
    simp only [List.mem_cons, List.not_mem_nil, or_false] at hpart
    rcases hpart with rfl | rfl | rfl
    · decide
    · decide
    · exact ⟨h.safe.not_mem.1, h.safe.not_mem.2.1⟩
  have hlocate : locate [[], "r".toList, token] = some ([token], [(.get, fun i => .redeemGet i.param),
      (.post, fun i => .redeemPost i.param i.headers i.redeemForm)]) := by
    obtain ⟨c, cs, rfl⟩ := List.exists_cons_of_ne_nil h.ne_nil
    rfl
  rw [hurl, dispatch_parts sub m (by simp) hparts, hlocate]
  simp only [Option.bind_eq_bind, Option.bind_some, pathParam_part h]
  cases m <;> rfl

theorem dispatch_revoke (page : String) {id : Text} {handler : Incoming → HttpRequest} (h : PathPart id)
    (hpage : '/' ∉ page.toList ∧ '?' ∉ page.toList)
    (hlocate : ∀ c cs, locate [[], page.toList, c :: cs, "revoke".toList] = some ([c :: cs], [(.post, handler)])) :
    dispatch sub ⟨.post, '/' :: page.toList ++ ['/'] ++ id ++ "/revoke".toList⟩ =
      some (handler { sub with param := .ok id, filter := .ok [] }) := by
  have hurl : '/' :: page.toList ++ ['/'] ++ id ++ "/revoke".toList =
      List.intercalate ['/'] [[], page.toList, id, "revoke".toList] := by
    simp [List.intercalate, List.intersperse]
  have hparts : ∀ part ∈ [[], page.toList, id, "revoke".toList], '/' ∉ part ∧ '?' ∉ part := by
    intro part hpart
    simp only [List.mem_cons, List.not_mem_nil, or_false] at hpart
    rcases hpart with rfl | rfl | rfl | rfl
    · decide
    · exact hpage
    · exact ⟨h.safe.not_mem.1, h.safe.not_mem.2.1⟩
    · decide
  have hroute : locate [[], page.toList, id, "revoke".toList] = some ([id], [(.post, handler)]) := by
    obtain ⟨c, cs, rfl⟩ := List.exists_cons_of_ne_nil h.ne_nil
    exact hlocate c cs
  rw [hurl, dispatch_parts sub .post (by simp) hparts, hroute]
  simp only [Option.bind_eq_bind, Option.bind_some, pathParam_part h]
  rfl

theorem dispatch_export (filter : Text) :
    dispatch sub ⟨.get, "/audit.csv".toList ++ csvQuery filter⟩ =
      some (.auditCsv sub.headers (.ok (exportedFilter filter))) := by
  cases filter with
  | nil => rfl
  | cons c cs =>
      have hquery : queryFilter sub.unreadable ("filter=".toList ++ urlencode (c :: cs)) =
          .ok (exportedFilter (c :: cs)) := by
        have hlink := auditQuery_link (c :: cs)
        rw [queryFilter]
        change auditQuery (encode ("filter=".toList ++ urlencode (c :: cs))) = _ at hlink
        rw [hlink]
        rfl
      have hsplit : splitQuery ("/audit.csv".toList ++ csvQuery (c :: cs)) =
          ("/audit.csv".toList, "filter=".toList ++ urlencode (c :: cs)) :=
        splitQuery_query (by decide)
      rw [dispatch, hsplit]
      simp only [hquery]
      rfl

theorem locate_shareRevoke (c : Char) (cs : Text) : locate [[], "shares".toList, c :: cs, "revoke".toList] =
    some ([c :: cs], [(.post, fun i => .shareRevoke i.headers i.param)]) := by
  unfold locate router
  simp [matchParts, List.splitOn_cons_eq_if_modifyHead]

theorem locate_tokenRevoke (c : Char) (cs : Text) : locate [[], "tokens".toList, c :: cs, "revoke".toList] =
    some ([c :: cs], [(.post, fun i => .tokenRevoke i.headers i.param)]) := by
  unfold locate router
  simp [matchParts, List.splitOn_cons_eq_if_modifyHead]

theorem map_flatMap_rows {α : Type} {rows : List α} {f : α → List Target} {g : α → List HttpRequest}
    (h : ∀ a ∈ rows, (f a).map (dispatch sub) = (g a).map some) :
    (rows.flatMap f).map (dispatch sub) = (rows.flatMap g).map some := by
  induction rows with
  | nil => rfl
  | cons a rows ih =>
      obtain ⟨ha, hrows⟩ := List.forall_mem_cons.mp h
      rw [List.flatMap_cons, List.flatMap_cons, List.map_append, List.map_append, ha, ih hrows]

theorem Page.dispatch_leadsTo {p : Page} (h : p.Addressed) :
    p.leadsTo.map (dispatch sub) = (p.offers sub exportedFilter).map some := by
  cases p with
  | login error => rfl
  | dashboard userEmail fipsStatus => rfl
  | redeemPrompt token error => exact congrArg (· :: []) (dispatch_link sub h .post)
  | audit events chainValid eventsChecked breakAtDisplay filterValue query =>
      obtain rfl : query = csvQuery filterValue := h
      exact congrArg (· :: _) (dispatch_export sub filterValue)
  | shares rows =>
      have hrows : (rows.flatMap fun s => if s.isActive then [revocation "/shares/" s.id] else []).map (dispatch sub) =
          (rows.flatMap fun s => if s.isActive then [.shareRevoke sub.headers (.ok s.id)] else []).map some := by
        refine map_flatMap_rows sub fun s hs => ?_
        cases s.isActive with
        | true =>
            exact congrArg (· :: [])
              (dispatch_revoke sub "shares" (h s hs) (by decide) locate_shareRevoke)
        | false => rfl
      cases rows with
      | nil => rfl
      | cons s rows => exact congrArg (fun l => _ :: _ :: l) hrows
  | tokens rows =>
      have hrows : (rows.flatMap fun t => if t.revoked then [] else [revocation "/tokens/" t.id]).map (dispatch sub) =
          (rows.flatMap fun t => if t.revoked then [] else [.tokenRevoke sub.headers (.ok t.id)]).map some := by
        refine map_flatMap_rows sub fun t ht => ?_
        cases t.revoked with
        | true => rfl
        | false =>
            exact congrArg (· :: [])
              (dispatch_revoke sub "tokens" (h t ht) (by decide) locate_tokenRevoke)
      exact congrArg (fun l => _ :: _ :: l) hrows
  | tokenCreated label rawToken => rfl
  | shareNew error => rfl
  | shareCreated vendorEmail vendorPhone shareUrl accessCode notificationsSent smsSent => rfl

end

theorem urlencode_address (f : Text) : (urlencode f).all isAddressChar = true := by
  apply List.all_eq_true.mpr
  intro c hc
  rcases urlencode_chars f c hc with hu | rfl
  · rw [isAddressChar, hu]
    rfl
  · decide

theorem revocation_address {page : String} (hpage : page.toList.all isAddressChar = true) {id : Text}
    (h : PathPart id) : (revocation page id).url.all isAddressChar = true := by
  rw [revocation, List.all_append, List.all_append, hpage, h.safe.address]
  decide

theorem Page.leadsTo_address {p : Page} (h : p.Addressed) : ∀ t ∈ p.leadsTo, t.url.all isAddressChar = true := by
  cases p with
  | login error =>
      exact show ∀ t ∈ [formTo "/login"], t.url.all isAddressChar = true by decide
  | dashboard userEmail fipsStatus =>
      exact show ∀ t ∈ [formTo "/logout", linkTo "/shares/new", linkTo "/shares", linkTo "/tokens", linkTo "/audit"],
        t.url.all isAddressChar = true by decide
  | redeemPrompt token error =>
      intro t ht
      obtain rfl := List.mem_singleton.mp ht
      rw [List.all_append, h.safe.address]
      decide
  | audit events chainValid eventsChecked breakAtDisplay filterValue query =>
      obtain rfl : query = csvQuery filterValue := h
      have hexport : ("/audit.csv".toList ++ csvQuery filterValue).all isAddressChar = true := by
        unfold csvQuery
        split_ifs
        · decide
        · rw [List.all_append, List.all_append, urlencode_address]
          decide
      exact List.forall_mem_cons.mpr ⟨hexport, by decide⟩
  | shares rows =>
      refine List.forall_mem_cons.mpr ⟨by decide, List.forall_mem_cons.mpr ⟨by decide, ?_⟩⟩
      intro t ht
      split_ifs at ht
      · obtain rfl := List.mem_singleton.mp ht
        decide
      · obtain ⟨s, hs, ht⟩ := List.mem_flatMap.mp ht
        split_ifs at ht
        · obtain rfl := List.mem_singleton.mp ht
          exact revocation_address (by decide) (h s hs)
        · cases ht
  | tokens rows =>
      refine List.forall_mem_cons.mpr ⟨by decide, List.forall_mem_cons.mpr ⟨by decide, ?_⟩⟩
      intro t ht
      obtain ⟨row, hrow, ht⟩ := List.mem_flatMap.mp ht
      split_ifs at ht
      · cases ht
      · obtain rfl := List.mem_singleton.mp ht
        exact revocation_address (by decide) (h row hrow)
  | tokenCreated label rawToken =>
      exact show ∀ t ∈ [linkTo "/tokens"], t.url.all isAddressChar = true by decide
  | shareNew error =>
      exact show ∀ t ∈ [linkTo "/", formTo "/shares/new"], t.url.all isAddressChar = true by decide
  | shareCreated vendorEmail vendorPhone shareUrl accessCode notificationsSent smsSent =>
      exact show ∀ t ∈ [linkTo "/shares/new", linkTo "/"], t.url.all isAddressChar = true by decide

theorem uuid_pathPart (id : Uuid) : PathPart id.text := by
  have hdigit : ∀ n < 16, ∃ m < 64, hexDigit n = base64Digit m := by decide
  have hhex : ∀ c ∈ hexEncode id.val, ∃ n, c = base64Digit n := by
    intro c hc
    obtain ⟨b, -, hb⟩ := List.mem_flatMap.mp hc
    have hlt := b.toNat_lt
    simp only [hexByte, List.mem_cons, List.not_mem_nil, or_false] at hb
    rcases hb with rfl | rfl
    · obtain ⟨m, -, hm⟩ := hdigit (b.toNat / 16) (by omega)
      exact ⟨m, hm⟩
    · obtain ⟨m, -, hm⟩ := hdigit (b.toNat % 16) (by omega)
      exact ⟨m, hm⟩
  have hhyphen : ∃ n, '-' = base64Digit n := ⟨62, by decide⟩
  constructor
  · simp [Uuid.text]
  · intro c hc
    by_cases hc' : c = '-'
    · exact hc' ▸ hhyphen
    · apply hhex
      rw [← Uuid.filter_text]
      exact List.mem_filter.mpr ⟨hc, by simpa using hc'⟩

def Sound (r : Response) : Prop := ∀ p, r.body = .page p → p.Addressed

theorem sound_html {p : Page} (h : p.Addressed) : Sound (.html p) := by
  intro q hq
  obtain rfl := Body.page.inj hq
  exact h

theorem sound_ofStatus (status : StatusCode) : Sound (.ofStatus status) := by
  intro p h
  cases h

theorem sound_redirect (location : String) : Sound (.redirect location) := by
  intro p h
  cases h

theorem sound_rejection (r : Rejection) : Sound r.intoResponse := by
  intro p h
  cases h

theorem sound_withHeader {r : Response} (h : Sound r) (name : String) (value : Bytes) :
    Sound (r.withHeader name value) := h

theorem sound_withHeaders {status : StatusCode} {headers : List (String × Text)} {body : Body}
    (h : ∀ p, body ≠ .page p) : Sound (.withHeaders status headers body) := by
  unfold Response.withHeaders
  split
  · exact fun p hp => absurd hp (h p)
  · exact sound_ofStatus _

abbrev Answers (m : Exec World StatusCode Response) : Prop := Ends Sound (fun _ => True) m

abbrev Responds (m : Exec World Response Response) : Prop := Ends Sound Sound m

section
variable (env : RequestEnv) (site : Site)

theorem responds_handled {m : Exec World StatusCode Response} (h : Answers m) : Responds (handled m) :=
  ends_adapt h fun e _ => sound_ofStatus e

theorem responds_extracting {α : Type} {extracted : Extracted α} {handler : α → Exec World StatusCode Response}
    (h : ∀ a, extracted = .ok a → Answers (handler a)) : Responds (extracting extracted handler) :=
  ends_bind (ends_lift h sound_rejection) fun _ ha => responds_handled ha

theorem responds_forUser {headers : HeaderMap} {handler : User → Exec World Response Response}
    (h : ∀ user, Responds (handler user)) : Responds (forUser env site headers handler) := by
  have huser : Ends (fun _ => True) Sound (currentUser env site headers) := by
    refine ends_bind (ends_attempt (ends_any _)) fun resolved _ => ?_
    split
    · exact ends_pure trivial
    · exact ends_throw (sound_redirect _)
  exact ends_bind huser fun user _ => h user

theorem answers_html {p : Page} (h : p.Addressed) : Answers (pure (.html p)) := ends_pure (sound_html h)

theorem answers_redirect (location : String) : Answers (pure (.redirect location)) :=
  ends_pure (sound_redirect location)

theorem answers_loginGet (headers : HeaderMap) : Answers (loginGet env site headers) := by
  refine ends_bind (ends_any _) fun user _ => ?_
  cases user with
  | ok user => exact answers_redirect "/"
  | error e => exact answers_html trivial

theorem answers_loginPost (headers : HeaderMap) (form : LoginForm) : Answers (loginPost env site headers form) := by
  refine ends_bind (ends_any _) fun result _ => ?_
  split
  · exact ends_bind (ends_any _) fun cookie _ => ends_pure (sound_withHeader (sound_redirect _) _ cookie)
  · exact answers_html trivial
  · exact ends_throw trivial

theorem answers_logoutPost (headers : HeaderMap) : Answers (logoutPost env site headers) := by
  have hcookie : Answers (do
      let cookie ← orPanic (headerValue clearSessionCookie)
      pure ((Response.redirect "/login").withHeader "set-cookie" cookie)) :=
    ends_bind (ends_any _) fun cookie _ => ends_pure (sound_withHeader (sound_redirect _) _ cookie)
  change Answers (if _ then _ else _)
  split_ifs
  · exact hcookie
  · exact ends_bind (ends_any _) fun _ _ => hcookie

theorem answers_shareNewPost (user : User) (headers : HeaderMap) (multipart : Multipart) :
    Answers (shareNewPost env site user headers multipart) := by
  refine ends_bind (ends_any _) fun draft _ => ?_
  split
  · rename_i missing _
    cases missing with
    | filename => exact answers_html trivial
    | fileBytes => exact ends_throw trivial
    | vendorEmail => exact ends_throw trivial
    | vendorDisplayName => exact ends_throw trivial
    | attestation => exact answers_html trivial
  · exact ends_bind (ends_any _) fun created _ => answers_html trivial

theorem answers_sharesListGet : Answers (sharesListGet env) := by
  refine ends_bind (ends_any _) fun list _ => answers_html ?_
  intro s hs
  obtain ⟨i, hi, rfl⟩ := List.mem_mapIdx.mp hs
  exact uuid_pathPart _

theorem answers_tokensGet (user : User) : Answers (tokensGet env user) := by
  refine ends_bind (ends_any _) fun list _ => answers_html ?_
  intro t ht
  obtain ⟨token, -, rfl⟩ := List.mem_map.mp ht
  exact uuid_pathPart _

theorem answers_revoke {α : Type} {o : Option Uuid} {call : Uuid → Exec World StatusCode α} {page : String} :
    Answers (do
      let id ← orErr .badRequest o
      let _ ← call id
      pure (.redirect page)) :=
  ends_bind (ends_any _) fun _ _ => ends_bind (ends_any _) fun _ _ => answers_redirect page

theorem answers_auditGet (filter : Text) : Answers (auditGet env site filter) :=
  ends_bind (ends_any _) fun _ _ => ends_bind (ends_any _) fun _ _ => answers_html rfl

theorem answers_auditCsv (filter : Text) : Answers (auditCsv env site filter) := by
  refine ends_bind (ends_any _) fun view _ => ends_pure (sound_withHeaders ?_)
  intro p hp
  cases hp

theorem answers_tokensPost (user : User) (headers : HeaderMap) (form : TokenMintForm) :
    Answers (tokensPost env site user headers form) := by
  change Answers (if _ then _ else _)
  split_ifs
  · exact answers_redirect "/tokens"
  · exact ends_bind (ends_any _) fun _ _ => answers_html trivial

theorem answers_redeemPost {token : Text} (h : PathPart token) (headers : HeaderMap) (form : RedeemForm) :
    Answers (redeemPost env site token headers form) := by
  refine ends_bind (ends_any _) fun result _ => ?_
  split
  · refine ends_pure (sound_withHeaders ?_)
    intro p hp
    cases hp
  · rename_i e
    unfold redeemRefusal
    split
    · exact answers_html h
    · exact answers_html h
    · exact answers_html h
    · exact ends_throw trivial

theorem responds_apiSharesPost (headers : HeaderMap) (multipart : Extracted Multipart) :
    Responds (route env site (.apiSharesPost headers multipart)) := by
  have hjson : ∀ e : ApiError, Sound e.intoResponse := by
    intro e p h
    cases h
  have hcaller : Ends (fun _ => True) Sound (adapt ApiError.intoResponse (apiCaller env site headers)) :=
    ends_adapt (ends_any _) fun e _ => hjson e
  refine ends_bind hcaller fun caller _ => ends_bind (ends_lift (fun _ _ => trivial) sound_rejection) fun m _ => ?_
  have hcreate : Ends Sound (fun _ => True) (apiSharesPost env site caller headers m) := by
    refine ends_bind (ends_any _) fun _ _ => ends_bind (ends_any _) fun _ _ => ends_bind (ends_any _) fun _ _ =>
      ends_pure ?_
    intro p h
    cases h
  exact ends_adapt hcreate fun e _ => hjson e

/-- A request whose token, if it has one, can be addressed. -/
def HttpRequest.Addressed : HttpRequest → Prop
  | .redeemGet (.ok token) => PathPart token
  | .redeemPost (.ok token) _ _ => PathPart token
  | _ => True

theorem responds_route {req : HttpRequest} (h : req.Addressed) : Responds (route env site req) := by
  cases req with
  | dashboard headers => exact responds_forUser env site fun user => responds_handled (answers_html trivial)
  | loginGet headers => exact responds_handled (answers_loginGet env site headers)
  | loginPost headers form => exact responds_extracting fun form _ => answers_loginPost env site headers form
  | logoutPost headers => exact responds_handled (answers_logoutPost env site headers)
  | shareNewGet headers => exact responds_forUser env site fun user => responds_handled (answers_html trivial)
  | shareNewPost headers multipart =>
      exact responds_forUser env site fun user => responds_extracting fun m _ =>
        answers_shareNewPost env site user headers m
  | sharesListGet headers => exact responds_forUser env site fun user => responds_handled (answers_sharesListGet env)
  | shareRevoke headers id =>
      exact responds_forUser env site fun user => responds_extracting fun id _ => answers_revoke
  | auditGet headers filter =>
      exact responds_forUser env site fun user => responds_extracting fun f _ => answers_auditGet env site f
  | auditCsv headers filter =>
      exact responds_forUser env site fun user => responds_extracting fun f _ => answers_auditCsv env site f
  | tokensGet headers => exact responds_forUser env site fun user => responds_handled (answers_tokensGet env user)
  | tokensPost headers form =>
      exact responds_forUser env site fun user => responds_extracting fun f _ =>
        answers_tokensPost env site user headers f
  | tokenRevoke headers id =>
      exact responds_forUser env site fun user => responds_extracting fun id _ => answers_revoke
  | apiSharesPost headers multipart => exact responds_apiSharesPost env site headers multipart
  | redeemGet token =>
      refine responds_extracting fun t ht => answers_html ?_
      subst ht
      exact h
  | redeemPost token headers form =>
      refine ends_bind (ends_lift (fun t ht => ht) sound_rejection) fun t ht => ?_
      subst ht
      exact responds_extracting fun f _ => answers_redeemPost env site h headers f
  | health => exact responds_handled (ends_pure fun p hp => by cases hp)

theorem respond_sound {req : HttpRequest} (h : req.Addressed) {w : World} {r : Response}
    (hr : (respond env site req w).1 = .ok r) : Sound r := by
  have hends : Ends Sound (fun _ => True) (respond env site req) := by
    refine ends_bind (ends_attempt (responds_route env site h)) fun result hresult => ?_
    cases result with
    | ok r => exact ends_pure (hresult.1 r rfl)
    | error r => exact ends_pure (hresult.2 r rfl)
  exact (hends w).1 r hr

end

/-- A token that is not URL-safe leads elsewhere. -/
example (sub : Submission) : dispatch sub ⟨.post, "/r/".toList ++ "a?b".toList⟩ = some (atLink sub "a".toList .post) :=
  rfl

end FipsDropbox.Web
