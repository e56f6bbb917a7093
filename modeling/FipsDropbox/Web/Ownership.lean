import FipsDropbox.Web.AdminOnly

/-!
# Whose token

A token is minted for the user who asks, and a user is shown their own tokens. It is revoked
by its identifier alone, so tokens stay with their owners as long as nobody names another
user's.
-/
namespace FipsDropbox.Web
open Utf8 Exec Crypto Storage Service Runs

def tokensOf (owner : Bytes) (s : Store) : List ApiTokenRow :=
  (s.db.apiTokens.rows.map ApiTokenRow.lasting).filter fun r => r.userId = owner

/-- The identifier is that of another user's token, not revoked yet. -/
def NamesForeign (caller : Bytes) (tokenId : Uuid) (s : Store) : Prop :=
  ∃ r ∈ s.db.apiTokens.rows, r.id = tokenId.val ∧ r.revokedAt = none ∧ r.userId ≠ caller

def SameTokensOf (owner : Bytes) (s t : Store) : Prop := tokensOf owner t = tokensOf owner s

inductive TokenOp where
  | mint (label ip ua : Text)
  | list
  | revoke (tokenId : Uuid) (ip ua : Text)

def TokenOp.request (caller : Uuid) : TokenOp → Request
  | .mint label ip ua => .mintApiToken caller label ip ua
  | .list => .listApiTokens caller
  | .revoke tokenId ip ua => .revokeApiToken tokenId caller ip ua

inductive TokenPage where
  | get
  | post (form : Extracted TokenMintForm)
  | revoke (id : Extracted Text)

def TokenPage.request (headers : HeaderMap) : TokenPage → HttpRequest
  | .get => .tokensGet headers
  | .post form => .tokensPost headers form
  | .revoke id => .tokenRevoke headers id

/-- An operation of the service on behalf of a user, a visit to a token page, or anything
else that happens to the service. -/
inductive TokenTurn where
  | call (env : RequestEnv) (caller : Uuid) (op : TokenOp)
  | visit (env : RequestEnv) (headers : HeaderMap) (page : TokenPage)
  | elsewhere (w : World)

def TokenTurn.run (site : Site) (w : World) : TokenTurn → World
  | .call env caller op => (handle env site.toApp (op.request caller) w).2
  | .visit env headers page => (respond env site (page.request headers) w).2
  | .elsewhere w' => w'

def TokenTurn.caller (site : Site) (w : World) : TokenTurn → Option Bytes
  | .call _ caller _ => some caller.val
  | .visit env headers _ => (sessionAccount env site w.store headers).map UserRow.id
  | .elsewhere _ => none

def TokenTurn.ListsOwn (site : Site) (w : World) : TokenTurn → Prop
  | .call env caller .list => ∀ ts w', listApiTokens env caller w = (.ok ts, w') → ∀ t ∈ ts, t.userId = caller
  | .visit env headers .get => ∀ r rows, (respond env site (.tokensGet headers) w).1 = .ok r →
      r.body = .page (.tokens rows) → ∃ (account : UserRow) (ts : List ApiToken),
        sessionAccount env site w.store headers = some account ∧ rows = ts.map tokenRow ∧ ∀ t ∈ ts, t.userId.val = account.id
  | _ => True

/-- No token of another user is added, removed, revoked or listed. -/
def KeepsToOwn (site : Site) (w : World) : TokenTurn → Prop
  | .elsewhere _ => True
  | turn => (∀ owner, turn.caller site w ≠ some owner → SameTokensOf owner w.store (turn.run site w).store) ∧
      turn.ListsOwn site w

/-- A turn that revokes does not name a token of another user. -/
def OwnIds (site : Site) (w : World) : TokenTurn → Prop
  | .call _ caller (.revoke tokenId _ _) => ¬ NamesForeign caller.val tokenId w.store
  | .visit env headers (.revoke (.ok path)) => ∀ account tokenId,
      sessionAccount env site w.store headers = some account → site.parseUuid path = some tokenId →
        ¬ NamesForeign account.id tokenId w.store
  | _ => True

def IsOf (user : Bytes) (site : Site) (w : World) (turn : TokenTurn) : Prop :=
  (∀ w', turn ≠ .elsewhere w') ∧ ∀ caller, turn.caller site w = some caller → caller = user

theorem sameTokensOf_frame (owner : Bytes) : Frame (SameTokensOf owner) where
  refl _ := rfl
  trans h h' := Eq.trans h' h

theorem Undisturbed.sameTokensOf {s t : Store} (h : Undisturbed s t) (owner : Bytes) : SameTokensOf owner s t := by
  rw [SameTokensOf, tokensOf, h.tokens, tokensOf]

/-- What a token's times do not tell is enough to say whose it is. -/
theorem namesForeign_of_lasting {caller : Bytes} {id : Uuid} {s t : Store}
    (h : t.db.apiTokens.rows.map ApiTokenRow.lasting = s.db.apiTokens.rows.map ApiTokenRow.lasting)
    (ht : NamesForeign caller id t) : NamesForeign caller id s := by
  obtain ⟨r, hr, hforeign⟩ := ht
  have hmem : r.lasting ∈ s.db.apiTokens.rows.map ApiTokenRow.lasting := h ▸ List.mem_map_of_mem hr
  obtain ⟨q, hq, hqr⟩ := List.mem_map.mp hmem
  simp only [ApiTokenRow.lasting, ApiTokenRow.mk.injEq] at hqr
  obtain ⟨hid, huser, -, -, -, -, hrevoked⟩ := hqr
  exact ⟨q, hq, by rwa [hid, hrevoked, huser]⟩

theorem tokensOf_update {owner : Bytes} {rows : List ApiTokenRow} {p : ApiTokenRow → Bool}
    {f : ApiTokenRow → ApiTokenRow} (hf : ∀ r, (f r).userId = r.userId)
    (hp : ∀ r ∈ rows, p r = true → r.userId ≠ owner) :
    ((rows.map fun r => if p r then f r else r).map ApiTokenRow.lasting).filter (fun r => r.userId = owner) =
      (rows.map ApiTokenRow.lasting).filter fun r => r.userId = owner := by
  induction rows with
  | nil => rfl
  | cons r rows ih =>
      have hrest := ih fun q hq => hp q (List.mem_cons_of_mem r hq)
      simp only [List.map_cons, List.filter_cons]
      rw [hrest]
      cases hr : p r with
      | false => rfl
      | true =>
          have hother : r.userId ≠ owner := hp r List.mem_cons_self hr
          simp [ApiTokenRow.lasting, hf, hother]

section
variable {env : RequestEnv} {site : Site} {owner : Bytes} {w : World}

theorem mintApiToken_others {caller : Uuid} (h : caller.val ≠ owner) (label ip ua : Text) :
    Moves (OnStore (SameTokensOf owner)) (mintApiToken env site.toApp caller label ip ua) := by
  have F := sameTokensOf_frame owner
  have hcreate : Moves (SameTokensOf owner) (ApiTokens.create env.toEnv site.bcrypt caller label) := by
    intro s
    rcases createApiToken_cases env.toEnv site.bcrypt caller label s with
      ⟨-, issued, apiTokens, -, hrun⟩ | ⟨-, -, hsame⟩
    · obtain ⟨r, apiTokens', hins, hstore, huser, -⟩ := createApiToken_row hrun
      rw [hrun, hstore]
      simp [SameTokensOf, tokensOf, (Table.insert_some hins).2, ApiTokenRow.lasting, huser, h]
    · rw [hsame]
      exact F.refl s
  exact moves_blocking F ((onStore_frame F).bind (moves_onStore hcreate) fun _ =>
    moves_audited F ((onStore_frame F).pure _))

theorem listApiTokens_same (caller : Uuid) :
    Moves (OnStore (SameTokensOf owner)) (listApiTokens env caller) :=
  moves_blocking (sameTokensOf_frame owner) (moves_onStore (moves_queryMap (sameTokensOf_frame owner) _ _ _))

/-- A revocation reaches the token that it names, whoever asks. -/
theorem revokeApiToken_others {caller : Uuid} {tokenId : Uuid} (ip ua : Text)
    (hno : ¬ NamesForeign caller.val tokenId w.store) (h : caller.val ≠ owner) :
    SameTokensOf owner w.store (revokeApiToken env site.toApp tokenId caller ip ua w).2.store := by
  cases hp : w.storePoisoned with
  | true =>
      rw [revokeApiToken, withStore_poisoned _ hp]
      rfl
  | false =>
      rw [revokeApiToken_store tokenId caller ip ua hp]
      rcases revokeApiToken_cases env.toEnv tokenId w.store with ⟨-, hrun⟩ | ⟨-, e, hrun⟩ <;> rw [hrun]
      · apply tokensOf_update (f := ApiTokenRow.revoked _) fun _ => rfl
        intro r hr hnamed howner
        simp only [Bool.and_eq_true, decide_eq_true_eq, Option.isNone_iff_eq_none] at hnamed
        exact hno ⟨r, hr, hnamed.1, hnamed.2, fun hcaller => h (hcaller.symm.trans howner)⟩
      · rfl

/-- On a host where the statement runs, exactly the foreign identifiers reach other users' tokens. -/
theorem revokeApiToken_others_iff {caller : Uuid} {tokenId : Uuid} (ip ua : Text)
    (hfree : w.storePoisoned = false) (hcall : env.fails .updateApiTokenRevoked = false) :
    (∀ owner, caller.val ≠ owner →
      SameTokensOf owner w.store (revokeApiToken env site.toApp tokenId caller ip ua w).2.store) ↔
        ¬ NamesForeign caller.val tokenId w.store := by
  constructor
  · rintro h ⟨r, hr, hid, hrevoked, huser⟩
    have hsame := h r.userId (Ne.symm huser)
    rw [revokeApiToken_store tokenId caller ip ua hfree] at hsame
    rcases revokeApiToken_cases env.toEnv tokenId w.store with ⟨-, hrun⟩ | ⟨hnone, -⟩
    · rw [hrun] at hsame
      have hbefore : r.lasting ∈ tokensOf r.userId w.store :=
        List.mem_filter.mpr ⟨List.mem_map_of_mem hr, by simp [ApiTokenRow.lasting]⟩
      rw [← hsame] at hbefore
      obtain ⟨hmem, -⟩ := List.mem_filter.mp hbefore
      obtain ⟨q, hq, hqr⟩ := List.mem_map.mp hmem
      rw [Table.update_rows] at hq
      obtain ⟨q', hq', rfl⟩ := List.mem_map.mp hq
      simp only [ApiTokenRow.lasting, ApiTokenRow.mk.injEq] at hqr
      split_ifs at hqr with hp
      · simp [ApiTokenRow.revoked, hrevoked] at hqr
      · simp [hqr.1, hid, hqr.2.2.2.2.2.2, hrevoked] at hp
    · exact hnone ⟨hcall, r, hr, hid, hrevoked⟩
  · intro hno owner howner
    exact revokeApiToken_others ip ua hno howner

theorem listApiTokens_own {caller : Uuid} {ts : List ApiToken} {w' : World}
    (h : listApiTokens env caller w = (.ok ts, w')) : ∀ t ∈ ts, t.userId = caller := by
  intro t ht
  obtain ⟨-, hbody⟩ := blocking_ok_iff.mp h
  obtain ⟨s, hlist, -⟩ := onStore_ok_iff.mp hbody
  obtain ⟨r, hr, hdec⟩ := row_of_queryMap hlist ht
  have hmem := List.mem_mergeSort.mp hr
  have howner : r.userId = caller.val := by simpa using (List.mem_filter.mp hmem).2
  exact Subtype.ext ((rowToToken_ok hdec).2.1.trans howner)

/-- The account behind the request's session, and what its handler makes of it. -/
theorem forUser_cases (env : RequestEnv) (site : Site) (headers : HeaderMap)
    (handler : User → Exec World Response Response) (w : World) :
    (∃ user w1 account, sessionAccount env site w.store headers = some account ∧ account.id = user.id.val ∧
      Undisturbed w.store w1.store ∧ forUser env site headers handler w = handler user w1) ∨
    (Undisturbed w.store (forUser env site headers handler w).2.store ∧
      ∀ r, (forUser env site headers handler w).1 ≠ .ok r) := by
  have hmoves : Undisturbed w.store (currentUser env site headers w).2.store := moves_currentUser headers w
  rcases bind_cases (currentUser env site headers) handler w with ⟨user, w1, hok, hrun⟩ | ⟨-, hstate, hno⟩
  · obtain ⟨account, haccount, huser, -⟩ := currentUser_ok hok
    rw [hok] at hmoves
    exact .inl ⟨user, w1, account, haccount, (rowToUser_ok huser).1.symm, hmoves, hrun⟩
  · exact .inr ⟨hstate ▸ hmoves, hno⟩

theorem visit_others {headers : HeaderMap} {handler : User → Exec World Response Response}
    (howner : ∀ account, sessionAccount env site w.store headers = some account → account.id ≠ owner)
    (h : ∀ user w1 account, sessionAccount env site w.store headers = some account →
      account.id = user.id.val → Undisturbed w.store w1.store → user.id.val ≠ owner →
        SameTokensOf owner w1.store (handler user w1).2.store) :
    SameTokensOf owner w.store (forUser env site headers handler w).2.store := by
  rcases forUser_cases env site headers handler w with ⟨user, w1, account, hacc, hid, hsame, hrun⟩ | ⟨hsame, -⟩
  · rw [hrun]
    have hother : user.id.val ≠ owner := hid ▸ howner account hacc
    exact (sameTokensOf_frame owner).trans (hsame.sameTokensOf owner) (h user w1 account hacc hid hsame hother)
  · exact hsame.sameTokensOf owner

theorem tokensGet_others (user : User) : Moves (OnStore (SameTokensOf owner)) (handled (tokensGet env user)) :=
  moves_adapt ((onStore_frame (sameTokensOf_frame owner)).bind (moves_adapt (listApiTokens_same user.id)) fun _ =>
    (onStore_frame (sameTokensOf_frame owner)).pure _)

theorem tokensPost_others {user : User} (h : user.id.val ≠ owner) (headers : HeaderMap)
    (form : Extracted TokenMintForm) :
    Moves (OnStore (SameTokensOf owner)) (extracting form (tokensPost env site user headers)) := by
  have FW := onStore_frame (sameTokensOf_frame owner)
  apply FW.bind (FW.lift _ _)
  intro form
  unfold tokensPost
  apply moves_adapt
  dsimp only
  split_ifs
  · exact FW.pure _
  · exact FW.bind (moves_adapt (mintApiToken_others h _ _ _)) fun _ => FW.pure _

theorem orWarn_state {α : Type} (m : Exec World ServiceError α) (w : World) : (orWarn m w).2 = (m w).2 :=
  (map_state _ _ w).trans (attempt_state m w)

theorem tokenRevoke_others {user : User} (h : user.id.val ≠ owner) (headers : HeaderMap) {path : Extracted Text}
    (hno : ∀ t id, path = .ok t → site.parseUuid t = some id → ¬ NamesForeign user.id.val id w.store) :
    SameTokensOf owner w.store (extracting path (tokenRevoke env site user headers) w).2.store := by
  cases path with
  | error r => rfl
  | ok t =>
      have hstate : (extracting (.ok t) (tokenRevoke env site user headers) w).2 =
          (tokenRevoke env site user headers t w).2 := adapt_state _ _ w
      rw [hstate]
      cases hid : site.parseUuid t with
      | none =>
          have hrun : tokenRevoke env site user headers t w = (.err .badRequest, w) := by
            rw [tokenRevoke, hid]
            rfl
          rw [hrun]
          rfl
      | some id =>
          have hrun : (tokenRevoke env site user headers t w).2 =
              (revokeApiToken env site.toApp id user.id (clientIp headers) (userAgent headers) w).2 := by
            rw [tokenRevoke, hid]
            exact (map_state _ _ w).trans (orWarn_state _ w)
          rw [hrun]
          exact revokeApiToken_others _ _ (hno t id rfl hid) h

theorem tokensGet_lists (headers : HeaderMap) : (TokenTurn.visit env headers .get).ListsOwn site w := by
  intro r rows hr hbody
  rw [respond_eq] at hr
  rcases hroute : route env site (.tokensGet headers) w with ⟨r' | r' | _, w'⟩ <;> rw [hroute] at hr
  · cases hr
    obtain ⟨user, w1, huser, hk⟩ := bind_ok_iff.mp hroute
    obtain ⟨account, haccount, hrow, -⟩ := currentUser_ok huser
    obtain ⟨ts, w2, hlist, hpage⟩ := bind_ok_iff.mp (adapt_ok_iff.mp hk)
    obtain ⟨rfl, -⟩ := pure_ok_iff.mp hpage
    cases hbody
    refine ⟨account, ts, haccount, rfl, ?_⟩
    intro t ht
    rw [listApiTokens_own (adapt_ok_iff.mp hlist) t ht, (rowToUser_ok hrow).1]
  · cases hr
    have hsafe : Safe (fun _ => True) (fun r => r.discloses = false) (route env site (.tokensGet headers)) := by
      apply safe_bind (safe_currentUser headers)
      intro user
      apply safe_convert (Q := fun _ => True)
      · exact fun _ _ => ⟨fun _ _ => trivial, fun _ => trivial⟩
      · exact fun _ _ => rfl
    have hquiet := (hsafe w trivial).1 r (congrArg Prod.fst hroute)
    simp [Response.discloses, hbody, Page.discloses] at hquiet
  · cases hr

theorem keepsToOwn_of_ownIds {turn : TokenTurn} (h : OwnIds site w turn) : KeepsToOwn site w turn := by
  cases turn with
  | elsewhere w' => trivial
  | call env caller op =>
      have hother : ∀ {owner}, TokenTurn.caller site w (.call env caller op) ≠ some owner → caller.val ≠ owner :=
        fun hne heq => hne (congrArg some heq)
      cases op with
      | mint label ip ua =>
          refine ⟨?_, trivial⟩
          intro owner howner
          exact moves_replying (sameTokensOf_frame owner) (mintApiToken_others (hother howner) label ip ua) w
      | list =>
          refine ⟨?_, fun ts w' hlist => listApiTokens_own hlist⟩
          intro owner _
          exact moves_replying (sameTokensOf_frame owner) (listApiTokens_same caller) w
      | revoke tokenId ip ua =>
          refine ⟨?_, trivial⟩
          intro owner howner
          have hstate := replying_state (fun _ => Reply.done) (revokeApiToken env site.toApp tokenId caller ip ua) w
          change SameTokensOf owner w.store (replying _ _ w).2.store
          rw [hstate]
          exact revokeApiToken_others ip ua h (hother howner)
  | visit env headers page =>
      have hother : ∀ {owner}, TokenTurn.caller site w (.visit env headers page) ≠ some owner →
          ∀ account, sessionAccount env site w.store headers = some account → account.id ≠ owner := by
        intro owner howner account haccount heq
        exact howner (by rw [TokenTurn.caller, haccount, Option.map_some, heq])
      have hrespond : (respond env site (page.request headers) w).2 = (route env site (page.request headers) w).2 := by
        rw [respond_eq]
      cases page with
      | get =>
          refine ⟨?_, tokensGet_lists headers⟩
          intro owner howner
          change SameTokensOf owner w.store (respond env site _ w).2.store
          rw [hrespond]
          exact visit_others (hother howner) fun user w1 _ _ _ _ _ => tokensGet_others user w1
      | post form =>
          refine ⟨?_, trivial⟩
          intro owner howner
          change SameTokensOf owner w.store (respond env site _ w).2.store
          rw [hrespond]
          exact visit_others (hother howner) fun user w1 _ _ _ _ hne => tokensPost_others hne headers form w1
      | revoke path =>
          refine ⟨?_, trivial⟩
          intro owner howner
          change SameTokensOf owner w.store (respond env site _ w).2.store
          rw [hrespond]
          apply visit_others (hother howner)
          intro user w1 account haccount hid hsame hne
          apply tokenRevoke_others hne
          rintro t tokenId rfl hparse hforeign
          apply h account tokenId haccount hparse
          rw [hid]
          exact namesForeign_of_lasting hsame.tokens hforeign

/-- As long as nobody names another user's token, every turn keeps to its caller's own, and
the turns of one user leave every other user's tokens as they are. -/
theorem tokens_keep_to_owners (site : Site) (w : World) (turns : List TokenTurn)
    (h : Throughout (TokenTurn.run site) (OwnIds site) w turns) :
    Throughout (TokenTurn.run site) (KeepsToOwn site) w turns ∧
    ∀ user owner, user ≠ owner → Throughout (TokenTurn.run site) (IsOf user site) w turns →
      tokensOf owner (turns.foldl (TokenTurn.run site) w).store = tokensOf owner w.store := by
  have hown := h.imp (fun _ => True) trivial (fun _ _ _ _ => trivial) fun _ _ _ hturn => keepsToOwn_of_ownIds hturn
  refine ⟨hown, ?_⟩
  intro user owner hne hof
  refine (hown.and hof).keeps (fun w' => tokensOf owner w'.store = tokensOf owner w.store) rfl ?_
  rintro w' turn hsame ⟨hkeeps, hhere, hcaller⟩
  have hother : turn.caller site w' ≠ some owner := fun hc => hne (hcaller owner hc).symm
  cases turn with
  | elsewhere w'' => exact absurd rfl (hhere w'')
  | call env caller op => exact (hkeeps.1 owner hother).trans hsame
  | visit env headers page => exact (hkeeps.1 owner hother).trans hsame

end

def strangerTokenId : Uuid := ⟨List.replicate 16 9, rfl⟩

def strangerToken : ApiTokenRow where
  id := strangerTokenId.val
  userId := sampleUser.id
  label := "workstation".toList
  tokenHash := List.replicate 32 9
  createdAt := 0
  lastSeenAt := none
  revokedAt := none

def tokenWorld : World :=
  { memberWorld .vendor with store := { (memberWorld .vendor).store with db :=
    { (memberWorld .vendor).store.db with apiTokens := ⟨[strangerToken], by decide⟩ } } }

/-- A user posts the identifier of another user's token, and it is revoked. -/
theorem stranger_revokes : ¬ Throughout (TokenTurn.run sampleSite) (KeepsToOwn sampleSite) tokenWorld
    [.visit quietEnv memberHeaders (.revoke (.ok strangerTokenId.text))] := by
  rintro ⟨⟨hothers, -⟩, -⟩
  have hcaller : TokenTurn.caller sampleSite tokenWorld
      (.visit quietEnv memberHeaders (.revoke (.ok strangerTokenId.text))) ≠ some sampleUser.id := by
    decide +kernel
  have hsame := congrArg (List.map ApiTokenRow.revokedAt) (hothers sampleUser.id hcaller)
  revert hsame
  decide +kernel

def ownTurns : List TokenTurn :=
  [.visit quietEnv memberHeaders (.post (.ok ⟨"laptop".toList⟩)),
    .visit quietEnv memberHeaders (.revoke (.ok (quietEnv.newId .apiToken).text))]

theorem tokens_keep_to_owners_sample :
    Throughout (TokenTurn.run sampleSite) (KeepsToOwn sampleSite) tokenWorld ownTurns := by
  refine (tokens_keep_to_owners sampleSite tokenWorld ownTurns ⟨trivial, ?_, trivial⟩).1
  intro account tokenId haccount hparse hforeign
  have hid : (sessionAccount quietEnv sampleSite
      (TokenTurn.run sampleSite tokenWorld (.visit quietEnv memberHeaders (.post (.ok ⟨"laptop".toList⟩)))).store
      memberHeaders).map UserRow.id = some (List.replicate 16 8) := by decide +kernel
  have htoken : sampleSite.parseUuid (quietEnv.newId .apiToken).text = some (quietEnv.newId .apiToken) := by
    decide +kernel
  rw [haccount] at hid
  obtain rfl := Option.some.inj (htoken.symm.trans hparse)
  rw [show account.id = List.replicate 16 8 from Option.some.inj hid] at hforeign
  revert hforeign
  unfold NamesForeign
  decide +kernel

end FipsDropbox.Web
