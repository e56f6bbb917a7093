import FipsDropbox.Audit.Chain

/-!
# Runs of the log

A log is coherent with its file when the file holds a verified chain whose tip is
the head in memory. Every write keeps that, except one that fails after the head
has moved and before its line is in the file.
-/
namespace FipsDropbox.Audit
open Utf8

/-- The steps between the update of the head and the end of the append. -/
def WriteStep.losesLine : WriteStep → Bool
  | .line | .openFile | .append => true
  | _ => false

def Event.payload (e : Event) : Event := e.chained [] []

theorem sealAfter_payload {serde : SerdeJson} {B : Bcrypt} {prev : Text} {ev e : Event}
    (h : sealAfter serde B prev ev = some e) : e.payload = ev.payload := by
  rw [(sealAfter_some h).1]
  rfl

structure Coherent (serde : SerdeJson) (B : Bcrypt) (log : Log) (file : File) (es : List Event) : Prop where
  holds : Holds serde file es
  linked : (chain serde B).Linked genesisHash es
  head : log.prevHash = (chain serde B).tip genesisHash es

variable {serde : SerdeJson} {B : Bcrypt}

namespace Coherent

theorem start {file : File} {es : List Event} (hf : Holds serde file es)
    (hl : (chain serde B).Linked genesisHash es) :
    ∃ log, Log.openLog serde file = .ok log ∧ Coherent serde B log file es :=
  ⟨_, hf.openLog, hf, hl, rfl⟩

theorem verifies {log : Log} {file : File} {es : List Event} (h : Coherent serde B log file es) :
    verifyChain serde B es = .ok ⟨true, none, es.length⟩ := (verifyChain_iff_linked es).mpr h.linked

theorem loadLastHash {log : Log} {file : File} {es : List Event} (h : Coherent serde B log file es) :
    loadLastHash serde file = .ok log.prevHash := by
  rw [h.head]
  exact loadLastHash_of_readAll h.holds.readAll

theorem openLog {log : Log} {file : File} {es : List Event} (h : Coherent serde B log file es) :
    Log.openLog serde file = .ok log := by
  rw [Log.openLog, h.loadLastHash]
  rfl

theorem of_content {log : Log} {file file' : File} {es : List Event} (h : Coherent serde B log file es)
    (he : file'.getD [] = file.getD []) : Coherent serde B log file' es := by
  obtain ⟨t, ht, hrest⟩ := h.holds
  exact ⟨⟨t, he.trans ht, hrest⟩, h.linked, h.head⟩

theorem append (D : serde.Documented) {log : Log} {file : File} {es : List Event}
    (h : Coherent serde B log file es) {ev e : Event} (hp : ev.Plain)
    (hs : sealAfter serde B log.prevHash ev = some e) {line : Text} (hl : serde.toString e = some line) :
    Coherent serde B ⟨e.hash⟩ (some (file.getD [] ++ encode (line ++ ['\n']))) (es ++ [e]) where
  holds := h.holds.append D (sealAfter_plain hs hp) hl
  linked := (HashChain.linked_concat _ _ _ _).mpr
    ⟨h.linked, (sealAfter_prevHash hs).trans h.head, (sealAfter_some hs).2⟩
  head := ((chain serde B).tip_concat genesisHash es e).symm

/-- The step lemma: a write whose fault does not lose the line leaves the log
coherent, with or without the event. -/
theorem write (D : serde.Documented) {log log' : Log} {file file' : File} {es : List Event}
    (h : Coherent serde B log file es) {ev : Event} (hp : ev.Plain) {fault : Option WriteStep}
    (hfault : ∀ w ∈ fault, w.losesLine = false) {r : Result Unit}
    (hw : log.write serde B fault file ev = (r, log', file')) :
    (r ≠ .ok () ∧ Coherent serde B log' file' es) ∨
      ∃ e, e.payload = ev.payload ∧ Coherent serde B log' file' (es ++ [e]) := by
  rcases write_cases hw with ⟨hr, rfl, rfl, -⟩ | ⟨e, hs, -, -, -, hlost⟩ | ⟨e, line, hs, hl, rfl, rfl, -⟩
  · exact .inl ⟨hr, h⟩
  · obtain ⟨line, hl⟩ := Option.isSome_iff_exists.mp (D.writes e (sealAfter_plain hs hp))
    rcases hlost with hnone | rfl | rfl | rfl
    · rw [hl] at hnone
      cases hnone
    all_goals cases hfault _ rfl
  · exact .inr ⟨e, sealAfter_payload hs, h.append D hp hs hl⟩

theorem write_ok (D : serde.Documented) {log : Log} {file : File} {es : List Event}
    (h : Coherent serde B log file es) {ev : Event} (hp : ev.Plain) :
    ∃ e log' file', log.write serde B none file ev = (.ok (), log', file') ∧ e.payload = ev.payload ∧
      Coherent serde B log' file' (es ++ [e]) := by
  obtain ⟨e, hs⟩ := sealAfter_plain_some (B := B) D hp log.prevHash
  obtain ⟨line, hl⟩ := Option.isSome_iff_exists.mp (D.writes e (sealAfter_plain hs hp))
  exact ⟨e, _, _, write_of_line hs hl (by simp), sealAfter_payload hs, h.append D hp hs hl⟩

end Coherent

inductive LogOp where
  | openLog
  | write (ev : Event)

def LogOp.written : LogOp → Option Event
  | .openLog => none
  | .write ev => some ev

section
variable (serde B)

def LogOp.step (s : Log × File) : LogOp → Result (Log × File)
  | .openLog => (Log.openLog serde s.2).map fun log => (log, s.2)
  | .write ev =>
      match s.1.write serde B none s.2 ev with
      | (.ok (), log, file) => .ok (log, file)
      | (.error err, _, _) => .error err

def LogOp.run : Log × File → List LogOp → Result (Log × File)
  | s, [] => .ok s
  | s, op :: ops => (op.step serde B s).bind fun s => run s ops

end

/-- The run lemma: the file ends up with the events so far and those the run
wrote, and the restarts might as well not have happened. -/
theorem run_coherent (D : serde.Documented) {s : Log × File} {es : List Event}
    (h : Coherent serde B s.1 s.2 es) {ops : List LogOp}
    (hp : ∀ ev ∈ ops.filterMap LogOp.written, ev.Plain) :
    ∃ s' new, LogOp.run serde B s ops = .ok s' ∧
      LogOp.run serde B s ((ops.filterMap LogOp.written).map LogOp.write) = .ok s' ∧
      Coherent serde B s'.1 s'.2 (es ++ new) ∧
      new.map Event.payload = (ops.filterMap LogOp.written).map Event.payload := by
  induction ops generalizing s es with
  | nil => exact ⟨s, [], rfl, rfl, by simpa using h, rfl⟩
  | cons op ops ih =>
      cases op with
      | openLog =>
          have hopen : LogOp.step serde B s .openLog = .ok s := by
            simp only [LogOp.step, h.openLog]
            rfl
          obtain ⟨s', new, hrun, hplain, hc, hnew⟩ := ih h (by simpa [LogOp.written] using hp)
          refine ⟨s', new, ?_, hplain, hc, hnew⟩
          rw [LogOp.run, hopen]
          exact hrun
      | write ev =>
          have hev : ev.Plain := hp ev (by simp [LogOp.written])
          obtain ⟨e, log', file', hw, hpay, hc⟩ := h.write_ok D hev
          have hstep : LogOp.step serde B s (.write ev) = .ok (log', file') := by
            simp only [LogOp.step, hw]
          obtain ⟨s', new, hrun, hplain, hc', hnew⟩ := ih (s := (log', file')) hc
            fun x hx => hp x (by simp [LogOp.written] at hx ⊢; exact .inr hx)
          refine ⟨s', e :: new, ?_, ?_, by simpa using hc', by simp [LogOp.written, hpay, hnew]⟩
          · rw [LogOp.run, hstep]
            exact hrun
          · simp only [List.filterMap_cons, LogOp.written, List.map_cons, LogOp.run, hstep]
            exact hplain

/-- Fault-free runs of a fresh log: what is read is what was written, it verifies,
and a reopened log is the one that was running. -/
theorem faultFree_run (D : serde.Documented) {file : File} (hf : file = none ∨ file = some [])
    (ops : List LogOp) (hp : ∀ ev ∈ ops.filterMap LogOp.written, ev.Plain) :
    ∃ log s es, Log.openLog serde file = .ok log ∧ LogOp.run serde B (log, file) ops = .ok s ∧
      readAll serde s.2 = .ok es ∧
      es.map Event.payload = (ops.filterMap LogOp.written).map Event.payload ∧
      verifyChain serde B es = .ok ⟨true, none, (ops.filterMap LogOp.written).length⟩ ∧
      Log.openLog serde s.2 = .ok s.1 ∧
      LogOp.run serde B (log, file) ((ops.filterMap LogOp.written).map LogOp.write) = .ok s := by
  have hholds : Holds serde file [] := by
    rcases hf with rfl | rfl
    · exact holds_absent
    · exact holds_empty
  obtain ⟨log, hopen, hc⟩ := Coherent.start (B := B) hholds trivial
  obtain ⟨s, es, hrun, hplain, hs, hes⟩ := run_coherent D (s := (log, file)) hc hp
  have hlen : es.length = (ops.filterMap LogOp.written).length := by
    simpa using congrArg List.length hes
  exact ⟨log, s, es, hopen, hrun, hs.holds.readAll, hes, hlen ▸ hs.verifies, hs.openLog, hplain⟩

/-- The run of the source's round-trip test, closed and reopened on the way. -/
def sampleOps : List LogOp :=
  [.write (sampleEvent "auth.login"), .openLog, .write (sampleEvent "share.created"), .openLog,
    .write (sampleEvent "share.redeem")]

theorem sampleOps_plain : ∀ ev ∈ sampleOps.filterMap LogOp.written, ev.Plain := by
  intro ev hev
  simp only [sampleOps, LogOp.written, List.filterMap_cons, List.filterMap_nil, List.mem_cons,
    List.not_mem_nil, or_false] at hev
  rcases hev with rfl | rfl | rfl <;> exact sampleEvent_plain _

theorem faultFree_run_sample :
    ∃ log s es, Log.openLog .reference none = .ok log ∧
      LogOp.run .reference .reference (log, none) sampleOps = .ok s ∧ readAll .reference s.2 = .ok es ∧
      es.map Event.payload = (sampleOps.filterMap LogOp.written).map Event.payload ∧
      verifyChain .reference .reference es =
        .ok ⟨true, none, (sampleOps.filterMap LogOp.written).length⟩ ∧
      Log.openLog .reference s.2 = .ok s.1 ∧
      LogOp.run .reference .reference (log, none) ((sampleOps.filterMap LogOp.written).map LogOp.write) =
        .ok s :=
  faultFree_run SerdeJson.reference_documented (.inl rfl) sampleOps sampleOps_plain

section
variable (serde B)

def runWrites : Log × File → List (Option WriteStep × Event) → Log × File
  | s, [] => s
  | s, (fault, ev) :: ws => runWrites (s.1.write serde B fault s.2 ev).2 ws

end

theorem runWrites_coherent (D : serde.Documented) {s : Log × File} {es : List Event}
    (h : Coherent serde B s.1 s.2 es) {ws : List (Option WriteStep × Event)}
    (hw : ∀ w ∈ ws, w.2.Plain ∧ ∀ step ∈ w.1, step.losesLine = false) :
    ∃ es', Coherent serde B (runWrites serde B s ws).1 (runWrites serde B s ws).2 es' := by
  induction ws generalizing s es with
  | nil => exact ⟨es, h⟩
  | cons w ws ih =>
      obtain ⟨fault, ev⟩ := w
      obtain ⟨hp, hfault⟩ := hw (fault, ev) (by simp)
      have hrest := fun x hx => hw x (List.mem_cons_of_mem _ hx)
      rcases hwr : s.1.write serde B fault s.2 ev with ⟨r, log', file'⟩
      simp only [runWrites, hwr]
      rcases h.write D hp hfault hwr with ⟨-, hc⟩ | ⟨e, -, hc⟩
      · exact ih (s := (log', file')) hc hrest
      · exact ih (s := (log', file')) hc hrest

/-- As long as no write fails between the update of the head and the end of its
append, head and file agree in every state, the events on disk verify, and the
next successful write extends their chain. -/
theorem runWrites_head_matches (D : serde.Documented) {file : File} {es : List Event}
    (hf : Holds serde file es) (hv : verifyChain serde B es = .ok ⟨true, none, es.length⟩) {log : Log}
    (hopen : Log.openLog serde file = .ok log) {ws : List (Option WriteStep × Event)}
    (hw : ∀ w ∈ ws, w.2.Plain ∧ ∀ step ∈ w.1, step.losesLine = false) :
    loadLastHash serde (runWrites serde B (log, file) ws).2 =
        .ok (runWrites serde B (log, file) ws).1.prevHash ∧
      ∃ es', readAll serde (runWrites serde B (log, file) ws).2 = .ok es' ∧
        verifyChain serde B es' = .ok ⟨true, none, es'.length⟩ ∧
        ∀ ev : Event, ev.Plain → ∃ e log' file',
          (runWrites serde B (log, file) ws).1.write serde B none (runWrites serde B (log, file) ws).2 ev =
            (.ok (), log', file') ∧ e.payload = ev.payload ∧ readAll serde file' = .ok (es' ++ [e]) ∧
          verifyChain serde B (es' ++ [e]) = .ok ⟨true, none, (es' ++ [e]).length⟩ := by
  obtain ⟨log0, hopen0, hc⟩ := Coherent.start hf ((verifyChain_iff_linked es).mp hv)
  obtain rfl : log0 = log := by
    rw [hopen] at hopen0
    exact (Except.ok.inj hopen0).symm
  obtain ⟨es', hs⟩ := runWrites_coherent D (s := (log0, file)) hc hw
  refine ⟨hs.loadLastHash, es', hs.holds.readAll, hs.verifies, ?_⟩
  intro ev hp
  obtain ⟨e, log', file', hwr, hpay, hc'⟩ := hs.write_ok D hp
  exact ⟨e, log', file', hwr, hpay, hc'.holds.readAll, hc'.verifies⟩

def harmlessWrites : List (Option WriteStep × Event) :=
  [(some .digest, sampleEvent "auth.login"), (none, sampleEvent "share.created"),
    (some .sync, sampleEvent "share.redeem")]

theorem harmlessWrites_harmless :
    ∀ w ∈ harmlessWrites, w.2.Plain ∧ ∀ step ∈ w.1, step.losesLine = false := by
  intro w hw
  simp only [harmlessWrites, List.mem_cons, List.not_mem_nil, or_false] at hw
  rcases hw with rfl | rfl | rfl <;> exact ⟨sampleEvent_plain _, by decide⟩

theorem runWrites_head_matches_sample :
    loadLastHash .reference (runWrites .reference .reference (⟨genesisHash⟩, none) harmlessWrites).2 =
        .ok (runWrites .reference .reference (⟨genesisHash⟩, none) harmlessWrites).1.prevHash ∧
      ∃ es', readAll .reference
          (runWrites .reference .reference (⟨genesisHash⟩, none) harmlessWrites).2 = .ok es' ∧
        verifyChain .reference .reference es' = .ok ⟨true, none, es'.length⟩ ∧
        ∀ ev : Event, ev.Plain → ∃ e log' file',
          (runWrites .reference .reference (⟨genesisHash⟩, none) harmlessWrites).1.write .reference
              .reference none (runWrites .reference .reference (⟨genesisHash⟩, none) harmlessWrites).2 ev =
            (.ok (), log', file') ∧ e.payload = ev.payload ∧ readAll .reference file' = .ok (es' ++ [e]) ∧
          verifyChain .reference .reference (es' ++ [e]) = .ok ⟨true, none, (es' ++ [e]).length⟩ :=
  runWrites_head_matches SerdeJson.reference_documented holds_absent rfl rfl harmlessWrites_harmless

theorem stored_hash_ne_genesis : (stored genesisHash "auth.login").hash ≠ genesisHash := by
  decide +kernel

def lostWrite : List (Option WriteStep × Event) := [(some .openFile, sampleEvent "auth.login")]

theorem runWrites_lostWrite :
    runWrites .reference .reference (⟨genesisHash⟩, none) lostWrite =
      (⟨(stored genesisHash "auth.login").hash⟩, none) := by
  have hs := sealAfter_stored genesisHash "auth.login"
  obtain ⟨line, hl⟩ := Option.isSome_iff_exists.mp
    (SerdeJson.reference_documented.writes _ (sealAfter_plain hs (sampleEvent_plain _)))
  have hw : Log.write .reference .reference (some .openFile) ⟨genesisHash⟩ none (sampleEvent "auth.login") =
      _ := write_of_line hs hl (by simp)
  simp only [lostWrite, runWrites, hw, appendLine, if_true]

/-- One failed open: the head is no longer what the file ends in, and the next
honest record looks like tampering. -/
theorem lost_line_breaks_chain :
    Log.openLog .reference none = .ok ⟨genesisHash⟩ ∧
    loadLastHash .reference (runWrites .reference .reference (⟨genesisHash⟩, none) lostWrite).2 ≠
      .ok (runWrites .reference .reference (⟨genesisHash⟩, none) lostWrite).1.prevHash ∧
    ∃ log' file' es,
      (runWrites .reference .reference (⟨genesisHash⟩, none) lostWrite).1.write .reference .reference none
          (runWrites .reference .reference (⟨genesisHash⟩, none) lostWrite).2 (sampleEvent "share.created") =
        (.ok (), log', file') ∧
      readAll .reference file' = .ok es ∧ verifyChain .reference .reference es = .ok ⟨false, some 0, 0⟩ := by
  rw [runWrites_lostWrite]
  have hp := sampleEvent_plain "share.created"
  have hs := sealAfter_stored (stored genesisHash "auth.login").hash "share.created"
  obtain ⟨line, hl⟩ := Option.isSome_iff_exists.mp
    (SerdeJson.reference_documented.writes _ (sealAfter_plain hs hp))
  have hfile := (holds_absent : Holds .reference none []).append SerdeJson.reference_documented
    (sealAfter_plain hs hp) hl
  refine ⟨rfl, ?_, _, _, _, write_of_line hs hl (by simp), hfile.readAll, ?_⟩
  · intro h
    exact stored_hash_ne_genesis (Except.ok.inj h).symm
  · have hprev := sealAfter_prevHash hs
    simp only [List.nil_append, verifyChain, verifyFrom, hprev, ne_eq, stored_hash_ne_genesis,
      not_false_eq_true, if_true]

end FipsDropbox.Audit
