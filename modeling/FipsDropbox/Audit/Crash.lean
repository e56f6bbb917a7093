import FipsDropbox.Audit.Runs

/-!
# Crash consistency of the log

`writeln!` on an unbuffered file writes the line and then its terminator. The
process may die before, inside, between or after these two writes, and is
restarted by `Log::open`, which has to accept what it finds.
-/
namespace FipsDropbox.Audit
open Utf8

/-- How far the two writes of `writeln!` got; inside the first one, at least one
byte of the line is missing. -/
inductive CrashPoint where
  | beforeOpen
  | inLine (bytes : ℕ)
  | afterLine
  | afterNewline
  deriving DecidableEq

def CrashPoint.content (p : CrashPoint) (file : File) (line : Text) : File :=
  match p with
  | .beforeOpen => file
  | .inLine n => some (file.getD [] ++ (encode line).take (min n ((encode line).length - 1)))
  | .afterLine => some (file.getD [] ++ encode line)
  | .afterNewline => some (file.getD [] ++ encode (line ++ ['\n']))

inductive CrashOp where
  | write (ev : Event)
  | crash (ev : Event) (point : CrashPoint)

def CrashOp.acknowledged : CrashOp → Option Event
  | .write ev => some ev
  | .crash _ _ => none

def CrashOp.event : CrashOp → Event
  | .write ev => ev
  | .crash ev _ => ev

section
variable (serde : SerdeJson) (B : Bcrypt)

def Log.lineOf (log : Log) (ev : Event) : Option Text :=
  (sealAfter serde B log.prevHash ev).bind serde.toString

def Log.crashed (log : Log) (file : File) (ev : Event) (point : CrashPoint) : File :=
  match log.lineOf serde B ev with
  | none => file
  | some line => point.content file line

/-- A successful write, or a death in a write and the restart after it. -/
def CrashOp.step (s : Log × File) : CrashOp → Result (Log × File)
  | .write ev =>
      match s.1.write serde B none s.2 ev with
      | (.ok (), log, file) => .ok (log, file)
      | (.error err, _, _) => .error err
  | .crash ev point =>
      (Log.openLog serde (s.1.crashed serde B s.2 ev point)).map fun log =>
        (log, s.1.crashed serde B s.2 ev point)

def CrashOp.run : Log × File → List CrashOp → Result (Log × File)
  | s, [] => .ok s
  | s, op :: ops => (op.step serde B s).bind fun s => run s ops

end

variable {serde : SerdeJson} {B : Bcrypt}

theorem openLog_torn (D : serde.Documented) {file : File} {es : List Event} (h : Holds serde file es)
    {e : Event} (hp : e.Plain) {line : Text} (hl : serde.toString e = some line) {n : ℕ} (hn : 0 < n)
    (hlt : n < (encode line).length) :
    ∃ err, Log.openLog serde (some (file.getD [] ++ (encode line).take n)) = .error err := by
  obtain ⟨t, ht, hterm, -⟩ := h
  rw [ht]
  cases hd : decode (encode t ++ (encode line).take n) with
  | none =>
      exact ⟨.io, by simp only [Log.openLog, loadLastHash, hd]; rfl⟩
  | some u =>
      -- what decodes is the old text and a proper prefix of the line
      have hu := decode_sound hd
      obtain ⟨q, rfl⟩ := prefix_of_encode_prefix (s := t) (t := u) (hu ▸ List.prefix_append _ _)
      have hq : encode q = (encode line).take n := by
        rw [encode_append] at hu
        exact List.append_cancel_left hu
      have hpre : q <+: line := prefix_of_encode_prefix (hq ▸ List.take_prefix _ _)
      have hlen : (encode q).length = n := by
        rw [hq, List.length_take]
        omega
      have hne : q ≠ line := by
        rintro rfl
        omega
      have hnil : q ≠ [] := by
        rintro rfl
        simp at hlen
        omega
      obtain ⟨hone, -⟩ := D.oneLine hl
      have hnl : '\n' ∉ q := fun hm => hone.1 (hpre.subset hm)
      have hblank : isBlank q = false := by
        obtain ⟨v, hv⟩ := D.object e line hl
        cases q with
        | nil => exact absurd rfl hnil
        | cons c q =>
            obtain ⟨r, hr⟩ := hpre
            obtain ⟨rfl, -⟩ := List.cons.inj (hr.trans hv)
            exact isBlank_cons_of_visible (by decide) q
      refine ⟨.serde, ?_⟩
      simp only [Log.openLog, loadLastHash, hd, lines_append_terminated hterm, lines_tail hnl hnil,
        lastHashOf, List.reverse_append, List.reverse_cons, List.reverse_nil, List.nil_append,
        List.singleton_append, List.find?_cons, hblank, Bool.not_false,
        D.torn e line q hp hl hpre hne]
      rfl

/-- The step lemma: unless the crash leaves exactly the line without its
terminator, a restart that succeeds finds the file as it was, or with the event. -/
theorem crashed_coherent (D : serde.Documented) {log log' : Log} {file : File} {es : List Event}
    (h : Coherent serde B log file es) {ev : Event} (hp : ev.Plain) {point : CrashPoint}
    (hpoint : point ≠ .afterLine) (hopen : Log.openLog serde (log.crashed serde B file ev point) = .ok log') :
    Coherent serde B log' (log.crashed serde B file ev point) es ∨
      ∃ e, Coherent serde B log' (log.crashed serde B file ev point) (es ++ [e]) := by
  have reopened {file' : File} {es' : List Event} {l : Log} (hc : Coherent serde B l file' es')
      (ho : Log.openLog serde file' = .ok log') : Coherent serde B log' file' es' := by
    rw [hc.openLog] at ho
    exact Except.ok.inj ho ▸ hc
  obtain ⟨e, hs⟩ := sealAfter_plain_some (B := B) D hp log.prevHash
  obtain ⟨line, hl⟩ := Option.isSome_iff_exists.mp (D.writes e (sealAfter_plain hs hp))
  have hline : log.lineOf serde B ev = some line := by
    rw [Log.lineOf, hs, Option.bind_some, hl]
  have hcrash : log.crashed serde B file ev point = point.content file line := by
    rw [Log.crashed, hline]
  rw [hcrash] at hopen ⊢
  cases point with
  | beforeOpen => exact .inl (reopened h hopen)
  | inLine n =>
      rcases Nat.eq_zero_or_pos (min n ((encode line).length - 1)) with hz | hpos
      · refine .inl (reopened (h.of_content ?_) hopen)
        simp [CrashPoint.content, hz]
      · obtain ⟨err, herr⟩ := openLog_torn D h.holds (sealAfter_plain hs hp) hl hpos (by omega)
        simp only [CrashPoint.content, herr] at hopen
        cases hopen
  | afterLine => exact absurd rfl hpoint
  | afterNewline => exact .inr ⟨e, reopened (h.append D hp hs hl) hopen⟩

theorem crashRun_coherent (D : serde.Documented) {s s' : Log × File} {es : List Event}
    (h : Coherent serde B s.1 s.2 es) {ops : List CrashOp} (hp : ∀ op ∈ ops, op.event.Plain)
    (hpoint : ∀ ev point, .crash ev point ∈ ops → point ≠ .afterLine)
    (hrun : CrashOp.run serde B s ops = .ok s') :
    ∃ new, Coherent serde B s'.1 s'.2 (es ++ new) ∧
      ((ops.filterMap CrashOp.acknowledged).map Event.payload).Sublist (new.map Event.payload) := by
  induction ops generalizing s es with
  | nil =>
      cases hrun
      exact ⟨[], by simpa using h, by simp⟩
  | cons op ops ih =>
      have hp' := fun o ho => hp o (List.mem_cons_of_mem op ho)
      have hpoint' := fun ev p hm => hpoint ev p (List.mem_cons_of_mem op hm)
      cases op with
      | write ev =>
          have hev : ev.Plain := hp (.write ev) (by simp)
          obtain ⟨e, log', file', hw, hpay, hc⟩ := h.write_ok D hev
          have hstep : CrashOp.step serde B s (.write ev) = .ok (log', file') := by
            simp only [CrashOp.step, hw]
          rw [CrashOp.run, hstep] at hrun
          obtain ⟨new, hc', hsub⟩ := ih (s := (log', file')) hc hp' hpoint' hrun
          refine ⟨e :: new, by simpa using hc', ?_⟩
          simp only [List.filterMap_cons, CrashOp.acknowledged, List.map_cons, hpay]
          exact hsub.cons_cons _
      | crash ev point =>
          have hev : ev.Plain := hp (.crash ev point) (by simp)
          cases hopen : Log.openLog serde (s.1.crashed serde B s.2 ev point) with
          | error err =>
              rw [CrashOp.run, CrashOp.step, hopen] at hrun
              cases hrun
          | ok log' =>
              rw [CrashOp.run, CrashOp.step, hopen] at hrun
              rcases crashed_coherent D h hev (hpoint ev point (by simp)) hopen with hc | ⟨e, hc⟩
              · obtain ⟨new, hc', hsub⟩ := ih (s := (log', _)) hc hp' hpoint' hrun
                exact ⟨new, hc', hsub⟩
              · obtain ⟨new, hc', hsub⟩ := ih (s := (log', _)) hc hp' hpoint' hrun
                exact ⟨e :: new, by simpa using hc', hsub.cons _⟩

/-- Runs with crashes, none of which leaves exactly a line without its terminator:
reading and verification go on, and no acknowledged event is lost or moved. -/
theorem crashRun_consistent (D : serde.Documented) {file : File} {es : List Event}
    (hf : Holds serde file es) (hv : verifyChain serde B es = .ok ⟨true, none, es.length⟩) {log : Log}
    (hopen : Log.openLog serde file = .ok log) {ops : List CrashOp} (hp : ∀ op ∈ ops, op.event.Plain)
    (hpoint : ∀ ev point, .crash ev point ∈ ops → point ≠ .afterLine) {s : Log × File}
    (hrun : CrashOp.run serde B (log, file) ops = .ok s) :
    ∃ new, readAll serde s.2 = .ok (es ++ new) ∧
      verifyChain serde B (es ++ new) = .ok ⟨true, none, (es ++ new).length⟩ ∧
      ((ops.filterMap CrashOp.acknowledged).map Event.payload).Sublist (new.map Event.payload) := by
  obtain ⟨log0, hopen0, hc⟩ := Coherent.start hf ((verifyChain_iff_linked es).mp hv)
  obtain rfl : log0 = log := by
    rw [hopen] at hopen0
    exact (Except.ok.inj hopen0).symm
  obtain ⟨new, hs, hsub⟩ := crashRun_coherent D (s := (log0, file)) hc hp hpoint hrun
  exact ⟨new, hs.holds.readAll, hs.verifies, hsub⟩

def survivedOps : List CrashOp :=
  [.crash (sampleEvent "auth.login") .afterNewline, .write (sampleEvent "share.created")]

theorem survivedOps_run : ∃ s, CrashOp.run .reference .reference (⟨genesisHash⟩, none) survivedOps = .ok s := by
  have D := SerdeJson.reference_documented
  have hp := sampleEvent_plain "auth.login"
  have hs := sealAfter_stored genesisHash "auth.login"
  obtain ⟨line, hl⟩ := Option.isSome_iff_exists.mp (D.writes _ (sealAfter_plain hs hp))
  have hstart : Coherent .reference .reference ⟨genesisHash⟩ none [] := ⟨holds_absent, trivial, rfl⟩
  have hc := hstart.append D hp hs hl
  have hcrash : Log.crashed .reference .reference ⟨genesisHash⟩ none (sampleEvent "auth.login") .afterNewline =
      some (encode (line ++ ['\n'])) := by
    simp [Log.crashed, Log.lineOf, hs, hl, CrashPoint.content]
  obtain ⟨e, log', file', hw, -⟩ := hc.write_ok D (sampleEvent_plain "share.created")
  have hopen := hc.openLog
  simp only [Option.getD_none, List.nil_append] at hopen hw
  refine ⟨(log', file'), ?_⟩
  simp only [survivedOps, CrashOp.run, CrashOp.step, hcrash, hopen, Except.map, Except.bind, hw]

theorem crashRun_consistent_sample :
    ∃ s new, CrashOp.run .reference .reference (⟨genesisHash⟩, none) survivedOps = .ok s ∧
      readAll .reference s.2 = .ok ([] ++ new) ∧
      verifyChain .reference .reference ([] ++ new) = .ok ⟨true, none, ([] ++ new).length⟩ ∧
      ((survivedOps.filterMap CrashOp.acknowledged).map Event.payload).Sublist (new.map Event.payload) := by
  obtain ⟨s, hrun⟩ := survivedOps_run
  have hplain : ∀ op ∈ survivedOps, op.event.Plain := by
    intro op hop
    simp only [survivedOps, List.mem_cons, List.not_mem_nil, or_false] at hop
    rcases hop with rfl | rfl <;> exact sampleEvent_plain _
  have hpoint : ∀ ev point, .crash ev point ∈ survivedOps → point ≠ .afterLine := by
    intro ev point hm
    simp only [survivedOps, List.mem_cons, List.not_mem_nil, or_false, reduceCtorEq,
      CrashOp.crash.injEq] at hm
    rw [hm.2]
    decide
  obtain ⟨new, hnew⟩ := crashRun_consistent SerdeJson.reference_documented holds_absent rfl rfl hplain
    hpoint hrun
  exact ⟨s, new, hrun, hnew⟩

/-- A complete line without its terminator is accepted by `Log::open`, and the
next write makes one unreadable line of two records. -/
theorem afterLine_unreadable (D : serde.Documented) {log : Log} {file : File} {es : List Event}
    (h : Coherent serde B log file es) {ev ev' : Event} (hp : ev.Plain) (hp' : ev'.Plain) :
    ∃ s, CrashOp.run serde B (log, file) [.crash ev .afterLine, .write ev'] = .ok s ∧
      readAll serde s.2 = .error .serde := by
  obtain ⟨e, hs⟩ := sealAfter_plain_some (B := B) D hp log.prevHash
  obtain ⟨line, hl⟩ := Option.isSome_iff_exists.mp (D.writes e (sealAfter_plain hs hp))
  obtain ⟨hone, hblank⟩ := D.oneLine hl
  obtain ⟨t, ht, hterm, hes⟩ := h.holds
  have hcrash : log.crashed serde B file ev .afterLine = some (encode (t ++ line)) := by
    simp [Log.crashed, Log.lineOf, hs, hl, CrashPoint.content, ht]
  have hlines : lines (t ++ line) = lines t ++ [line] := by
    rw [lines_append_terminated hterm, lines_tail hone.1 (by rintro rfl; cases hblank)]
  have hopen : Log.openLog serde (log.crashed serde B file ev .afterLine) = .ok ⟨e.hash⟩ := by
    rw [hcrash]
    simp only [Log.openLog, loadLastHash, decode_encode, hlines, lastHashOf, List.reverse_append,
      List.reverse_cons, List.reverse_nil, List.nil_append, List.singleton_append, List.find?_cons, hblank,
      Bool.not_false, D.reads e line (sealAfter_plain hs hp) hl]
    rfl
  obtain ⟨e', hs'⟩ := sealAfter_plain_some (B := B) D hp' e.hash
  obtain ⟨line', hl'⟩ := Option.isSome_iff_exists.mp (D.writes e' (sealAfter_plain hs' hp'))
  obtain ⟨hone', -⟩ := D.oneLine hl'
  have hwrite : Log.write serde B none ⟨e.hash⟩ (log.crashed serde B file ev .afterLine) ev' = _ :=
    write_of_line hs' hl' (by simp)
  refine ⟨(⟨e'.hash⟩, some (encode (t ++ joinLines [line ++ line']))), ?_, ?_⟩
  · simp only [CrashOp.run, CrashOp.step, hopen, Except.map, Except.bind, hwrite, appendLine]
    simp [hcrash]
  · have hglued : OneLine (line ++ line') := by
      obtain ⟨u, hu⟩ := D.object e' line' hl'
      refine ⟨?_, ?_⟩
      · simp only [List.mem_append, not_or]
        exact ⟨hone.1, hone'.1⟩
      · rw [List.getLast?_append_of_ne_nil _ (by rw [hu]; simp)]
        exact hone'.2
    have hvisible : isBlank (line ++ line') = false := by
      obtain ⟨u, hu⟩ := D.object e line hl
      rw [hu]
      exact isBlank_cons_of_visible (by decide) _
    have hjoin : lines (joinLines [line ++ line']) = [line ++ line'] :=
      lines_joinLines (by simpa using hglued)
    simp only [readAll, decode_encode, lines_append_terminated hterm, hjoin, eventsOf_append, hes, Except.bind,
      eventsOf, hvisible, Bool.false_eq_true, if_false,
      D.glued e e' line line' (sealAfter_plain hs hp) hl hl']
    rfl

theorem crash_afterLine_sample :
    Log.openLog .reference none = .ok ⟨genesisHash⟩ ∧
    ∃ s, CrashOp.run .reference .reference (⟨genesisHash⟩, none)
        [.crash (sampleEvent "auth.login") .afterLine, .write (sampleEvent "share.created")] = .ok s ∧
      readAll .reference s.2 = .error .serde :=
  ⟨rfl, afterLine_unreadable SerdeJson.reference_documented ⟨holds_absent, trivial, rfl⟩
    (sampleEvent_plain _) (sampleEvent_plain _)⟩

end FipsDropbox.Audit
