import FipsDropbox.Audit.Runs
import FipsDropbox.Lib.Csv
import FipsDropbox.Service.AuditView
import FipsDropbox.Web.Admin
import FipsDropbox.Web.Login
import Mathlib.Data.List.DropRight

/-!
# The exported audit log

`audit_csv` gives the events of a prefix as comma-separated values, the oldest first. Whatever
the texts of an event are, a reader of the format gets its ten fields, and from them the event.
-/
namespace FipsDropbox.Web
open Utf8 Exec Crypto Storage Service

def csvColumns : List Text :=
  ["ts", "event", "outcome", "user_id", "ip", "ua", "target", "meta", "prev_hash", "hash"].map String.toList

def jsonOf (t : Text) : Option JsonValue := (Json.parse (fun _ => none) (t.length + 1) t).map JsonValue.collect

/-- The event that a record tells of. -/
def eventOfRecord : List Text → Option Audit.Event
  | [ts, event, outcome, userId, ip, ua, target, meta_, prevHash, hash] => do
      let ts ← Rfc3339.parse ts
      let outcome ← Audit.Outcome.ofName outcome
      let target ← jsonOf target
      let meta_ ← jsonOf meta_
      some {
        ts, event, outcome, target, prevHash, hash
        actor := ⟨if userId.isEmpty then none else some userId, ip, ua⟩
        «meta» := meta_ }
  | _ => none

/-- Events that the ten fields can tell: without floats, and with no empty user. -/
structure Exportable (e : Audit.Event) : Prop where
  target : e.target.tree.floatFree = true
  «meta» : e.meta.tree.floatFree = true
  user : e.actor.userId ≠ some []

section
variable {site : Site}

theorem jsonOf_valueText {v : JsonValue} (h : v.tree.floatFree = true) : jsonOf (valueText site v) = some v := by
  rw [jsonOf, valueText, Json.parse_print_unlimited _ _ h, Option.map_some, JsonValue.collect_tree]

theorem eventOfRecord_csvFields {e : Audit.Event} (h : Exportable e) (hts : (Rfc3339.format e.ts).isSome = true) :
    eventOfRecord (csvFields site e) = some e := by
  obtain ⟨ts, hts⟩ := Option.isSome_iff_exists.mp hts
  have huser : (if (e.actor.userId.getD []).isEmpty then none else some (e.actor.userId.getD [])) =
      e.actor.userId := by
    cases hu : e.actor.userId with
    | none => rfl
    | some u =>
        cases u with
        | nil => exact absurd hu h.user
        | cons c u => rfl
  simp only [eventOfRecord, csvFields, hts, Option.getD_some, Rfc3339.parse_format hts,
    Audit.Outcome.ofName_name, jsonOf_valueText h.target, jsonOf_valueText h.meta, Option.bind_eq_bind,
    Option.bind_some, huser]

theorem csvField_spells (s : Text) : Csv.Spells s (csvField s) := by
  unfold csvField
  split_ifs with h
  · exact .quoted s
  · apply Csv.Spells.plain
    intro c hc
    by_contra hplain
    apply h
    refine List.any_eq_true.mpr ⟨c, hc, ?_⟩
    simpa only [Csv.isPlain, Bool.not_eq_true', Bool.not_eq_false] using hplain

theorem csvFields_spell (e : Audit.Event) :
    List.Forall₂ Csv.Spells (csvFields site e) ((csvFields site e).map csvField) := by
  rw [List.forall₂_map_right_iff]
  exact List.forall₂_same.mpr fun s _ => csvField_spells s

theorem csvColumns_spell : List.Forall₂ Csv.Spells csvColumns csvColumns := by
  have hplain : (csvColumns.all fun s => s.all Csv.isPlain) = true := rfl
  apply List.forall₂_same.mpr
  intro s hs
  exact .plain (List.all_eq_true.mp (List.all_eq_true.mp hplain s hs))

/-- What the body of an export reads as. -/
theorem read_export (events : List Audit.Event) :
    Csv.read (csvHeader ++ (events.map (csvRow site)).flatten) =
      some (csvColumns :: events.map (csvFields site)) := by
  have hbody : csvHeader ++ (events.map (csvRow site)).flatten =
      ((csvColumns :: events.map fun e => (csvFields site e).map csvField).map Csv.line).flatten := by
    rw [List.map_cons, List.flatten_cons, List.map_map]
    rfl
  rw [hbody]
  apply Csv.read_lines
  · refine .cons csvColumns_spell ?_
    rw [List.forall₂_map_left_iff, List.forall₂_map_right_iff]
    exact List.forall₂_same.mpr fun e _ => csvFields_spell e
  · intro r hr
    rcases List.mem_cons.mp hr with rfl | hr
    · simp [csvColumns]
    · obtain ⟨e, -, rfl⟩ := List.mem_map.mp hr
      simp [csvFields]

def newest (limit : ℕ) (filter : Text) (all : List Audit.Event) : List Audit.Event :=
  (all.filter fun e => filter.isPrefixOf e.event).rtake limit

theorem pageOf_filterOf (limit : ℕ) (filter : Text) (all : List Audit.Event) :
    (pageOf (filterOf filter) limit all).reverse = newest limit filter all := by
  cases filter with
  | nil =>
      have hall : all.filter (fun e => ([] : Text).isPrefixOf e.event) = all := List.filter_eq_self.mpr (by simp)
      rw [newest, hall]
      simp [pageOf, filterOf, List.rtake]
  | cons c t => simp [pageOf, filterOf, newest, List.rtake]

theorem mem_newest {limit : ℕ} {filter : Text} {all : List Audit.Event} {e : Audit.Event}
    (h : e ∈ newest limit filter all) : e ∈ all :=
  List.mem_of_mem_filter (List.mem_of_mem_drop h)

theorem digits_header (w n : ℕ) : ∀ c ∈ Rfc3339.digits w n, HeaderChar c := by
  have hdigit : ∀ i < 10, 32 ≤ (hexDigit i).toNat ∧ (hexDigit i).toNat < 127 := by decide
  induction w with
  | zero =>
      intro c hc
      cases hc
  | succ w ih =>
      intro c hc
      rcases List.mem_cons.mp hc with rfl | hc
      · exact hdigit _ (Nat.mod_lt _ (by omega))
      · exact ih c hc

theorem formatYear_header (year : ℤ) : ∀ c ∈ formatYear year, HeaderChar c := by
  rw [formatYear, List.forall_mem_append]
  refine ⟨?_, digits_header 4 _⟩
  split_ifs
  · exact List.forall_mem_singleton.mpr ⟨by decide, by decide⟩
  · exact fun c hc => nomatch hc

theorem header_append {s t : Text} (hs : ∀ c ∈ s, HeaderChar c) (ht : ∀ c ∈ t, HeaderChar c) :
    ∀ c ∈ s ++ t, HeaderChar c := List.forall_mem_append.mpr ⟨hs, ht⟩

theorem csvName_header (now : OffsetDateTime) : ∀ c ∈ csvName now, HeaderChar c := by
  have hname : ∀ c ∈ "fips-dropbox-audit-".toList, HeaderChar c := literal_header (by decide)
  have hcsv : ∀ c ∈ ".csv".toList, HeaderChar c := literal_header (by decide)
  have hdash : ∀ c ∈ ['-'], HeaderChar c := List.forall_mem_singleton.mpr ⟨by decide, by decide⟩
  have hdate := header_append (header_append (header_append hname
    (formatYear_header (Rfc3339.dateOf now).year)) (digits_header 2 (Rfc3339.dateOf now).month))
    (digits_header 2 (Rfc3339.dateOf now).day)
  have hhour := header_append hdate (header_append hdash (digits_header 2 (Rfc3339.clock now).hour))
  exact header_append (header_append hhour (digits_header 2 (Rfc3339.clock now).minute)) hcsv

theorem attachment_header {filename : Text} (h : ∀ c ∈ filename, HeaderChar c) :
    ∀ c ∈ attachment filename, HeaderChar c := by
  have hquote : ∀ c ∈ [Json.quote], HeaderChar c := List.forall_mem_singleton.mpr ⟨by decide, by decide⟩
  have hlead : ∀ c ∈ "attachment; filename=".toList, HeaderChar c := literal_header (by decide)
  exact header_append (header_append hlead (header_append hquote h)) hquote

theorem withHeaders_some (status : StatusCode) (body : Body) {headers : List (String × Text)}
    (h : ∀ p ∈ headers, ∀ c ∈ p.2, HeaderChar c) :
    ∃ hs, Response.withHeaders status headers body = ⟨status, hs, body⟩ := by
  obtain ⟨hs, hsome⟩ : ∃ hs, (headers.mapM fun p => (headerValue p.2).map fun value => (p.1.toList, value)) =
      some hs := by
    induction headers with
    | nil => exact ⟨[], rfl⟩
    | cons p headers ih =>
        obtain ⟨hs, hrest⟩ := ih fun q hq => h q (List.mem_cons_of_mem p hq)
        rw [List.mapM_cons, headerValue_some (h p List.mem_cons_self), hrest]
        exact ⟨_, rfl⟩
  exact ⟨hs, by rw [Response.withHeaders, hsome]⟩

theorem auditCsv_run {env : RequestEnv} {filter : Text} {w w' : World} {view : AuditView}
    (h : listAuditEvents env site.toApp (filterOf filter) 100000 w = (.ok view, w')) :
    ∃ r, auditCsv env site filter w = (.ok r, w') ∧ r.status = .ok ∧
      r.body = .plain (csvHeader ++ (view.events.reverse.map (csvRow site)).flatten) := by
  have hlist : orInternal (listAuditEvents env site.toApp (filterOf filter) 100000) w = (.ok view, w') :=
    adapt_ok_iff.mpr h
  have htype : ∀ c ∈ "text/csv; charset=utf-8".toList, HeaderChar c := literal_header (by decide)
  have hname := attachment_header (csvName_header (env.now .csvName).time)
  have hheaders : ∀ p ∈ [("content-type", "text/csv; charset=utf-8".toList),
      ("content-disposition", attachment (csvName (env.now .csvName).time))], ∀ c ∈ p.2, HeaderChar c := by
    intro p hp
    rcases List.mem_pair.mp hp with rfl | rfl
    · exact htype
    · exact hname
  obtain ⟨hs, hresponse⟩ := withHeaders_some .ok
    (.plain (csvHeader ++ (view.events.reverse.map (csvRow site)).flatten)) hheaders
  refine ⟨_, by rw [auditCsv, bind_ok hlist, hresponse]; rfl, rfl, rfl⟩

/-- The export is faithful: read back, it is the column names and one record for each of the
newest events of the prefix, in the order of the log, that tells the whole event. -/
theorem auditCsv_faithful {env : RequestEnv} {filter : Text} {w w' : World} {view : AuditView}
    {all : List Audit.Event} (T : site.serde.ReadsTimes)
    (hview : listAuditEvents env site.toApp (filterOf filter) 100000 w = (.ok view, w'))
    (hall : Audit.readAll site.serde w.file = .ok all) (hexport : ∀ e ∈ all, Exportable e) :
    (∃ r text records, auditCsv env site filter w = (.ok r, w') ∧ r.status = .ok ∧ r.body = .plain text ∧
      Csv.read text = some (csvColumns :: records) ∧ (∀ record ∈ records, record.length = 10) ∧
      records.map eventOfRecord = (newest 100000 filter all).map some) ∧
    ∀ (env' : RequestEnv) (p : Option Text) (limit : ℕ) (view' : AuditView) (w'' : World),
      listAuditEvents env' site.toApp p limit w = (.ok view', w'') → view'.verification = view.verification := by
  obtain ⟨-, -, -, es, verdict, hread, hverdict, rfl⟩ := listAuditEvents_ok_iff.mp hview
  obtain rfl : es = all := Except.ok.inj (hread.symm.trans hall)
  constructor
  · obtain ⟨r, hrun, hstatus, hbody⟩ := auditCsv_run hview
    refine ⟨r, _, _, hrun, hstatus, hbody, read_export _, ?_, ?_⟩
    · intro record hrecord
      obtain ⟨e, -, rfl⟩ := List.mem_map.mp hrecord
      rfl
    · rw [pageOf_filterOf, List.map_map]
      apply List.map_congr_left
      intro e he
      exact eventOfRecord_csvFields (hexport e (mem_newest he)) (Audit.readAll_times T hall (mem_newest he))
  · intro env' p limit view' w'' hview'
    obtain ⟨-, -, -, es', verdict', hread', hverdict', rfl⟩ := listAuditEvents_ok_iff.mp hview'
    obtain rfl : es' = es := Except.ok.inj (hread'.symm.trans hread)
    exact Except.ok.inj (hverdict'.symm.trans hverdict)

end

/-- An event whose user agent has every character that a field has to be quoted for. -/
def quotedEvent : Audit.Event :=
  { Audit.sampleEvent "auth.login" with actor := ⟨none, "10.0.0.1".toList, ['a', Json.quote, ',', '\r', '\n']⟩ }

theorem quotedEvent_plain : quotedEvent.Plain :=
  have h := Audit.sampleEvent_plain "auth.login"
  ⟨h.utc, h.year, h.target, h.meta⟩

def quotedWorld : World :=
  { freshWorld with file :=
      (Audit.Log.write .reference .reference none freshWorld.log freshWorld.file quotedEvent).2.2 }

theorem auditCsv_faithful_sample :
    ∃ e, Audit.readAll sampleSite.serde quotedWorld.file = .ok [e] ∧ e.payload = quotedEvent.payload ∧
      ∃ r text records, auditCsv quietEnv sampleSite "auth.".toList quotedWorld = (.ok r, quotedWorld) ∧
        r.body = .plain text ∧ Csv.read text = some (csvColumns :: records) ∧
        records.map eventOfRecord = [some e] := by
  have hstart : Audit.Coherent .reference .reference freshWorld.log freshWorld.file [] :=
    ⟨Audit.holds_absent, trivial, rfl⟩
  obtain ⟨e, log, file, hwrite, hpayload, hlog⟩ :=
    hstart.write_ok Audit.SerdeJson.reference_documented quotedEvent_plain
  have hfile : quotedWorld.file = file := by rw [quotedWorld, hwrite]
  have hread : Audit.readAll sampleSite.serde quotedWorld.file = .ok [e] := hfile ▸ hlog.holds.readAll
  have hview : listAuditEvents quietEnv sampleSite.toApp (filterOf "auth.".toList) 100000 quotedWorld =
      (.ok ⟨pageOf (filterOf "auth.".toList) 100000 [e], ⟨true, none, 1⟩, 1⟩, quotedWorld) :=
    listAuditEvents_ok_iff.mpr ⟨rfl, rfl, rfl, [e], _, hread, hlog.verifies, rfl⟩
  have hevent : e.event = "auth.login".toList :=
    show e.payload.event = quotedEvent.payload.event from congrArg Audit.Event.event hpayload
  have hexport : ∀ f ∈ [e], Exportable f := by
    intro f hf
    obtain rfl := List.mem_singleton.mp hf
    have htarget : f.target = .object [] := congrArg Audit.Event.target hpayload
    have hmeta : f.meta = .object [] := congrArg Audit.Event.meta hpayload
    have hactor : f.payload.actor = quotedEvent.actor := congrArg Audit.Event.actor hpayload
    exact ⟨by rw [htarget]; decide, by rw [hmeta]; decide, show f.payload.actor.userId ≠ _ by rw [hactor]; decide⟩
  obtain ⟨⟨r, text, records, hrun, -, hbody, hcsv, -, hback⟩, -⟩ :=
    auditCsv_faithful Audit.SerdeJson.reference_readsTimes hview hread hexport
  refine ⟨e, hread, hpayload, r, text, records, hrun, hbody, hcsv, ?_⟩
  have hkeep : [e].filter (fun e => "auth.".toList.isPrefixOf e.event) = [e] := by
    rw [List.filter_cons, hevent]
    rfl
  rw [hback, newest, hkeep]
  simp [List.rtake]

end FipsDropbox.Web
