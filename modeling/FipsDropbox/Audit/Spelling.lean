import FipsDropbox.Audit.Runs

/-!
# What the file spells

Verification hashes the canonical JSON of what a line parses to, so it speaks
about the events of a file and not about its bytes. The events that pass are
exactly those `Log::write` stores; a line may spell its event in any way that
the parser accepts.
-/
namespace FipsDropbox.Audit
open Utf8

/-- Whether an event serialises does not depend on its chain fields. -/
def SerdeJson.ChainBlind (serde : SerdeJson) : Prop :=
  ∀ e p h, (serde.toString e).isSome = true → (serde.toString (e.chained p h)).isSome = true

theorem SerdeJson.reference_chainBlind : SerdeJson.reference.ChainBlind := by
  intro e p h he
  obtain ⟨t, ht⟩ := Option.isSome_iff_exists.mp he
  obtain ⟨ts, hts, hf, -⟩ := reference_toString ht
  rw [members_floatFree] at hf
  simp only [reference, members_floatFree, Event.chained, hf, if_true, hts, Option.map_some,
    Option.isSome_some]

variable {serde : SerdeJson} {B : Bcrypt}

/-- `read_all` parses the lines that are not blank, one event each. -/
theorem eventsOf_lines {ls : List Text} {es : List Event} (h : eventsOf serde ls = .ok es) :
    (ls.filter (fun l => !isBlank l)).map serde.fromStr = es.map some := by
  induction ls generalizing es with
  | nil =>
      cases h
      rfl
  | cons l ls ih =>
      simp only [eventsOf] at h
      split_ifs at h with hb
      · simpa [hb] using ih h
      · cases hl : serde.fromStr l with
        | none =>
            rw [hl] at h
            cases h
        | some ev =>
            rw [hl] at h
            cases hrest : eventsOf serde ls with
            | error err =>
                rw [hrest] at h
                cases h
            | ok fs =>
                rw [hrest] at h
                cases h
                simp [hb, hl, ih hrest]

theorem readAll_lines {bytes : Bytes} {es : List Event} (h : readAll serde (some bytes) = .ok es) :
    ∃ t, decode bytes = some t ∧
      ((lines t).filter (fun l => !isBlank l)).map serde.fromStr = es.map some := by
  cases hd : decode bytes with
  | none => simp [readAll, hd] at h
  | some t =>
      simp only [readAll, hd] at h
      exact ⟨t, rfl, eventsOf_lines h⟩

theorem run_write_linked (hblind : serde.ChainBlind) {g : Text} {es : List Event}
    (h : (chain serde B).Linked g es) (file : File) :
    ∃ ls s, es.map serde.toString = ls.map some ∧
      LogOp.run serde B (⟨g⟩, file) (es.map LogOp.write) = .ok s ∧
      s.1.prevHash = (chain serde B).tip g es ∧ s.2.getD [] = file.getD [] ++ encode (joinLines ls) := by
  induction es generalizing g file with
  | nil => exact ⟨[], (⟨g⟩, file), rfl, rfl, rfl, by simp⟩
  | cons e es ih =>
      obtain ⟨hprev, hsealed, hrest⟩ := h
      have hs : sealAfter serde B g e = some e := sealAfter_of_sealed hprev hsealed
      obtain ⟨b, hb, -⟩ := hsealed
      obtain ⟨t, ht, -⟩ := Option.map_eq_some_iff.mp hb
      obtain ⟨line, hl⟩ := Option.isSome_iff_exists.mp
        (hblind _ e.prevHash e.hash (Option.isSome_iff_exists.mpr ⟨t, ht⟩))
      have hl' : serde.toString e = some line := hl
      have hw : Log.write serde B none ⟨g⟩ file e = _ := write_of_line hs hl' (by simp)
      obtain ⟨ls, s, hls, hrun, hhead, hfile⟩ := ih hrest (some (file.getD [] ++ encode (line ++ ['\n'])))
      refine ⟨line :: ls, s, by simp [hl', hls], ?_, hhead, ?_⟩
      · simp only [List.map_cons, LogOp.run, LogOp.step, hw, appendLine, reduceCtorEq, if_false]
        exact hrun
      · rw [hfile]
        simp

/-- Event-level canonicity: the events that a file content spells, if they verify,
are what `Log::write` produces for them, and the head determines them. -/
theorem verified_file_canonical (hblind : serde.ChainBlind) (hinj : serde.CanonicalInjective)
    {bytes : Bytes} {es : List Event} {v : ChainVerification} (hr : readAll serde (some bytes) = .ok es)
    (hv : verifyChain serde B es = .ok v) (hvalid : v.valid = true) :
    (∃ t, decode bytes = some t ∧
      ((lines t).filter (fun l => !isBlank l)).map serde.fromStr = es.map some) ∧
    (∃ ls s, es.map serde.toString = ls.map some ∧
      LogOp.run serde B (⟨genesisHash⟩, none) (es.map LogOp.write) = .ok s ∧
      s.2.getD [] = encode (joinLines ls)) ∧
    ∀ bytes' es' w, readAll serde (some bytes') = .ok es' → verifyChain serde B es' = .ok w →
      w.valid = true → es'.getLast?.map Event.hash = es.getLast?.map Event.hash →
      es' = es ∨ CanonicalCollision serde (Cng.sha256 B) es' es ∨
        ZeroDigest serde (Cng.sha256 B) (es' ++ es) := by
  have hlinked := verifyFrom_valid hv hvalid
  obtain ⟨ls, s, hls, hrun, -, hfile⟩ := run_write_linked hblind hlinked none
  refine ⟨readAll_lines hr, ⟨ls, s, hls, hrun, by simpa using hfile⟩, ?_⟩
  intro bytes' es' w hr' hw hwvalid hlast
  have ht : (chain serde B).tip genesisHash es' = (chain serde B).tip genesisHash es := by
    rw [HashChain.tip_eq_getLast, HashChain.tip_eq_getLast]
    exact congrArg (·.getD genesisHash) hlast
  exact linked_unique hinj (verifyFrom_valid hw hwvalid) hlinked ht

def lineWithExtraField (e : Event) (ts : Text) : Text :=
  Json.print (fun _ => []) (.object (("x".toList, .number (.posInt 0)) :: e.members ts))

theorem ofJson_extraField {e : Event} {ts : Text} (h : Rfc3339.parse ts = some e.ts) :
    Event.ofJson (.object (("x".toList, .number (.posInt 0)) :: e.members ts)) = some e :=
  Event.ofJson_members h

theorem extraField_floatFree {e : Event} (h : e.Plain) (ts : Text) :
    (Json.object (("x".toList, .number (.posInt 0)) :: e.members ts)).floatFree = true := by
  have hmembers := SerdeJson.members_floatFree e ts
  rw [h.target.1, h.meta.1] at hmembers
  exact hmembers

theorem fromStr_extraField {e : Event} (h : e.Plain) {ts : Text} (hts : Rfc3339.format e.ts = some ts) :
    SerdeJson.reference.fromStr (lineWithExtraField e ts) = some e := by
  have htarget := h.target
  have hmeta := h.meta
  have hdepth : (Json.object (e.members ts)).depth < 128 := by
    rw [SerdeJson.members_depth]
    omega
  have hparse : Json.parse (fun _ => none) 128 (lineWithExtraField e ts) = _ :=
    Json.parse_print _ _ (extraField_floatFree h ts)
      (by simpa [Json.depth, Json.membersDepth] using hdepth)
  simp only [SerdeJson.reference, hparse, Option.bind_some, ofJson_extraField (Rfc3339.parse_format hts)]

theorem readAll_extraField {e : Event} (h : e.Plain) {ts : Text} (hts : Rfc3339.format e.ts = some ts) :
    readAll .reference (some (encode (lineWithExtraField e ts ++ ['\n']))) = .ok [e] := by
  have hvisible : ∀ c ∈ lineWithExtraField e ts, 0x20 ≤ c.toNat :=
    Json.print_visible _ _ (extraField_floatFree h ts)
  have hnl : '\n' ∉ lineWithExtraField e ts := fun hm => absurd (hvisible _ hm) (by decide)
  have hcr : stripCr (lineWithExtraField e ts) = lineWithExtraField e ts :=
    if_neg fun hl => absurd (hvisible _ (List.mem_of_getLast? hl)) (by decide)
  have hblank : isBlank (lineWithExtraField e ts) = false := by
    obtain ⟨u, hu⟩ := Json.print_object (fun _ => []) (("x".toList, .number (.posInt 0)) :: e.members ts)
    rw [lineWithExtraField, hu]
    exact isBlank_cons_of_visible (by decide) u
  simp only [readAll, decode_encode, lines_terminated hnl, hcr, lines_nil, eventsOf, hblank,
    Bool.false_eq_true, if_false, fromStr_extraField h hts, Except.map]

theorem lineWithExtraField_ne (e : Event) (ts ts' : Text) :
    lineWithExtraField e ts ≠ Json.print (fun _ => []) (.object (e.members ts')) := by
  intro h
  have hthird := congrArg (fun t : Text => t[2]?) h
  cases hthird

def respelled : Bytes :=
  encode (lineWithExtraField (stored genesisHash "auth.login") "1970-01-01T00:00:00Z".toList ++ ['\n'])

theorem respelled_reads : readAll .reference (some respelled) = .ok [stored genesisHash "auth.login"] := by
  have hs := sealAfter_stored genesisHash "auth.login"
  have hts : Rfc3339.format (stored genesisHash "auth.login").ts =
      some "1970-01-01T00:00:00Z".toList := by
    rw [(sealAfter_some hs).1]
    change Rfc3339.format .unixEpoch = _
    decide +kernel
  exact readAll_extraField (sealAfter_plain hs (sampleEvent_plain _)) hts

theorem storedOne_verifies :
    verifyChain .reference .reference [stored genesisHash "auth.login"] = .ok ⟨true, none, 1⟩ :=
  (verifyChain_iff_linked _).mpr ⟨sealAfter_prevHash (sealAfter_stored _ _),
    (sealAfter_some (sealAfter_stored _ _)).2, trivial⟩

/-- The added field passes both `read_all` and `verify_chain`, and the bytes are not
those of the record. -/
theorem respelled_accepted :
    readAll .reference (some respelled) = .ok [stored genesisHash "auth.login"] ∧
    verifyChain .reference .reference [stored genesisHash "auth.login"] = .ok ⟨true, none, 1⟩ ∧
    ∃ line, SerdeJson.reference.toString (stored genesisHash "auth.login") = some line ∧
      respelled ≠ encode (line ++ ['\n']) := by
  obtain ⟨line, hl⟩ := Option.isSome_iff_exists.mp (SerdeJson.reference_documented.writes _
    (sealAfter_plain (sealAfter_stored genesisHash "auth.login") (sampleEvent_plain "auth.login")))
  refine ⟨respelled_reads, storedOne_verifies, line, hl, ?_⟩
  intro h
  obtain ⟨ts, -, -, rfl⟩ := SerdeJson.reference_toString hl
  have hline := encode_injective h
  exact lineWithExtraField_ne _ _ _ (List.append_cancel_right hline)

theorem verified_file_canonical_respelled :
    (∃ t, decode respelled = some t ∧
      ((lines t).filter (fun l => !isBlank l)).map SerdeJson.reference.fromStr =
        [stored genesisHash "auth.login"].map some) ∧
    (∃ ls s, [stored genesisHash "auth.login"].map SerdeJson.reference.toString = ls.map some ∧
      LogOp.run .reference .reference (⟨genesisHash⟩, none)
        ([stored genesisHash "auth.login"].map LogOp.write) = .ok s ∧
      s.2.getD [] = encode (joinLines ls)) ∧
    ∀ bytes' es' w, readAll .reference (some bytes') = .ok es' →
      verifyChain .reference .reference es' = .ok w → w.valid = true →
      es'.getLast?.map Event.hash = [stored genesisHash "auth.login"].getLast?.map Event.hash →
      es' = [stored genesisHash "auth.login"] ∨
        CanonicalCollision .reference (Cng.sha256 .reference) es' [stored genesisHash "auth.login"] ∨
        ZeroDigest .reference (Cng.sha256 .reference) (es' ++ [stored genesisHash "auth.login"]) :=
  verified_file_canonical SerdeJson.reference_chainBlind SerdeJson.reference_injective.canonical
    respelled_reads storedOne_verifies rfl

end FipsDropbox.Audit
