import FipsDropbox.Audit.Event
import FipsDropbox.Lib.HashChain

/-!
# crates/audit: the log

`Log::write`, `read_all`, `verify_chain` and `load_last_hash` over a file that is
absent or a byte string. Every fallible step of a write that depends on the
system is named by a `WriteStep`, and a run says which of them fails.
-/
namespace FipsDropbox.Audit
open Utf8

inductive AuditError where
  | io
  | crypto
  | serde
  deriving DecidableEq

abbrev Result := Except AuditError

def genesisHash : Text := List.replicate 64 '0'

abbrev File := Option Bytes

structure Log where
  prevHash : Text

/-- The fallible steps of `Log::write`, in order. -/
inductive WriteStep where
  | canonical
  | digest
  | line
  | openFile
  | append
  | sync
  deriving DecidableEq

structure ChainVerification where
  valid : Bool
  breakAt : Option ℕ
  eventsChecked : ℕ
  deriving DecidableEq

section
variable (serde : SerdeJson) (B : Bcrypt)

/-- Open, `writeln!`, `sync_all`. A failed append leaves nothing of the line behind;
the file was created by then. -/
def appendLine (fault : Option WriteStep) (file : File) (line : Text) : Result Unit × File :=
  if fault = some .openFile then (.error .io, file)
  else if fault = some .append then (.error .io, some (file.getD []))
  else if fault = some .sync then (.error .io, some (file.getD [] ++ encode (line ++ ['\n'])))
  else (.ok (), some (file.getD [] ++ encode (line ++ ['\n'])))

def Log.write (fault : Option WriteStep) (log : Log) (file : File) (ev : Event) :
    Result Unit × Log × File :=
  if fault = some .canonical then (.error .serde, log, file)
  else match serde.toVec (ev.chained log.prevHash []) with
    | none => (.error .serde, log, file)
    | some canonical =>
        if fault = some .digest then (.error .crypto, log, file)
        else
          -- `self.prev_hash` moves here, before the line exists
          let hash := hexDigest (Cng.sha256 B canonical)
          let log' : Log := { log with prevHash := hash }
          if fault = some .line then (.error .serde, log', file)
          else match serde.toString (ev.chained log.prevHash hash) with
            | none => (.error .serde, log', file)
            | some line => ((appendLine fault file line).1, log', (appendLine fault file line).2)

/-- The loop of `read_all` over the lines. -/
def eventsOf : List Text → Result (List Event)
  | [] => .ok []
  | line :: rest =>
      if isBlank line then eventsOf rest
      else match serde.fromStr line with
        | none => .error .serde
        | some ev => (eventsOf rest).map (ev :: ·)

def readAll : File → Result (List Event)
  | none => .ok []
  | some bytes =>
      match decode bytes with
      | none => .error .io
      | some contents => eventsOf serde (lines contents)

def lastHashOf (ls : List Text) : Result Text :=
  match ls.reverse.find? (fun l => !isBlank l) with
  | some line =>
      match serde.fromStr line with
      | none => .error .serde
      | some ev => .ok ev.hash
  | none => .ok genesisHash

def loadLastHash : File → Result Text
  | none => .ok genesisHash
  | some bytes =>
      match decode bytes with
      | none => .error .io
      | some contents => lastHashOf serde (lines contents)

/-- `Log::open`. -/
def Log.openLog (file : File) : Result Log := (loadLastHash serde file).map fun h => ⟨h⟩

/-- The loop of `verify_chain` from index `i` on; at its end `i` is the number of events. -/
def verifyFrom (expectedPrev : Text) (i : ℕ) : List Event → Result ChainVerification
  | [] => .ok ⟨true, none, i⟩
  | ev :: rest =>
      if ev.prevHash ≠ expectedPrev then .ok ⟨false, some i, i⟩
      else match serde.toVec (ev.chained ev.prevHash []) with
        | none => .error .serde
        | some canonical =>
            if hexDigest (Cng.sha256 B canonical) ≠ ev.hash then .ok ⟨false, some i, i⟩
            else verifyFrom ev.hash (i + 1) rest

def verifyChain (events : List Event) : Result ChainVerification := verifyFrom serde B genesisHash 0 events

/-- The canonical bytes of an event: its JSON with the hash field cleared. -/
def canonical (ev : Event) : Option Bytes := serde.toVec (ev.chained ev.prevHash [])

def chain : HashChain Event Bytes Text where
  prev := Event.prevHash
  own := Event.hash
  body := canonical serde
  digest b := hexDigest (Cng.sha256 B b)

def sealAfter (prev : Text) (ev : Event) : Option Event :=
  (serde.toVec (ev.chained prev [])).map fun b => ev.chained prev (hexDigest (Cng.sha256 B b))

variable {serde B}

theorem sealAfter_some {prev : Text} {ev e : Event} (h : sealAfter serde B prev ev = some e) :
    e = ev.chained prev e.hash ∧ (chain serde B).Sealed e := by
  obtain ⟨b, hb, rfl⟩ := Option.map_eq_some_iff.mp h
  exact ⟨rfl, b, hb, rfl⟩

theorem sealAfter_prevHash {prev : Text} {ev e : Event} (h : sealAfter serde B prev ev = some e) :
    e.prevHash = prev := by
  obtain ⟨b, -, rfl⟩ := Option.map_eq_some_iff.mp h
  rfl

theorem sealAfter_plain {prev : Text} {ev e : Event} (h : sealAfter serde B prev ev = some e)
    (hp : ev.Plain) : e.Plain := by
  rw [(sealAfter_some h).1]
  exact hp.chained _ _

theorem sealAfter_plain_some (D : serde.Documented) {ev : Event} (h : ev.Plain) (prev : Text) :
    ∃ e, sealAfter serde B prev ev = some e := by
  obtain ⟨t, ht⟩ := Option.isSome_iff_exists.mp (D.writes _ (h.chained prev []))
  exact ⟨_, by simp only [sealAfter, SerdeJson.toVec, ht, Option.map_some]; rfl⟩

theorem sealAfter_of_sealed {prev : Text} {e : Event} (hp : e.prevHash = prev)
    (hs : (chain serde B).Sealed e) : sealAfter serde B prev e = some e := by
  obtain ⟨b, hb, hd⟩ := hs
  subst hp
  have hb' : serde.toVec (e.chained e.prevHash []) = some b := hb
  have hd' : hexDigest (Cng.sha256 B b) = e.hash := hd
  simp only [sealAfter, hb', Option.map_some, hd', Event.chained_self]

theorem appendLine_cases (fault : Option WriteStep) (file : File) (line : Text) :
    ((appendLine fault file line).1 ≠ .ok () ∧ (appendLine fault file line).2.getD [] = file.getD [] ∧
      (fault = some .openFile ∨ fault = some .append)) ∨
    ((appendLine fault file line).2 = some (file.getD [] ++ encode (line ++ ['\n'])) ∧
      ((appendLine fault file line).1 = .ok () ↔ fault ≠ some .sync) ∧
      fault ≠ some .openFile ∧ fault ≠ some .append) := by
  unfold appendLine
  split_ifs with ho ha hs
  · exact .inl ⟨by simp, rfl, .inl ho⟩
  · exact .inl ⟨by simp, rfl, .inr ha⟩
  · exact .inr ⟨rfl, by simp [hs], ho, ha⟩
  · exact .inr ⟨rfl, by simp [hs], ho, ha⟩

/-- All that a write can do: nothing, move the head alone, or move the head and
append the line. -/
theorem write_cases {fault : Option WriteStep} {log log' : Log} {file file' : File} {ev : Event}
    {r : Result Unit} (h : log.write serde B fault file ev = (r, log', file')) :
    (r ≠ .ok () ∧ log' = log ∧ file' = file ∧
      (sealAfter serde B log.prevHash ev = none ∨ fault = some .canonical ∨ fault = some .digest)) ∨
    (∃ e, sealAfter serde B log.prevHash ev = some e ∧ r ≠ .ok () ∧ log' = ⟨e.hash⟩ ∧
      file'.getD [] = file.getD [] ∧
      (serde.toString e = none ∨ fault = some .line ∨ fault = some .openFile ∨ fault = some .append)) ∨
    ∃ e line, sealAfter serde B log.prevHash ev = some e ∧ serde.toString e = some line ∧
      log' = ⟨e.hash⟩ ∧ file' = some (file.getD [] ++ encode (line ++ ['\n'])) ∧
      (fault = none ∧ r = .ok () ∨ fault = some .sync ∧ r ≠ .ok ()) := by
  unfold Log.write at h
  by_cases hc : fault = some .canonical
  · rw [if_pos hc] at h
    obtain ⟨rfl, rfl, rfl⟩ := h
    exact .inl ⟨by simp, rfl, rfl, .inr (.inl hc)⟩
  rw [if_neg hc] at h
  cases hv : serde.toVec (ev.chained log.prevHash []) with
  | none =>
      rw [hv] at h
      obtain ⟨rfl, rfl, rfl⟩ := h
      exact .inl ⟨by simp, rfl, rfl, .inl (by simp [sealAfter, hv])⟩
  | some b =>
      have hs : sealAfter serde B log.prevHash ev =
          some (ev.chained log.prevHash (hexDigest (Cng.sha256 B b))) := by simp [sealAfter, hv]
      rw [hv] at h
      dsimp only at h
      by_cases hd : fault = some .digest
      · rw [if_pos hd] at h
        obtain ⟨rfl, rfl, rfl⟩ := h
        exact .inl ⟨by simp, rfl, rfl, .inr (.inr hd)⟩
      rw [if_neg hd] at h
      by_cases hl : fault = some .line
      · rw [if_pos hl] at h
        obtain ⟨rfl, rfl, rfl⟩ := h
        exact .inr (.inl ⟨_, hs, by simp, rfl, rfl, .inr (.inl hl)⟩)
      rw [if_neg hl] at h
      cases hline : serde.toString (ev.chained log.prevHash (hexDigest (Cng.sha256 B b))) with
      | none =>
          rw [hline] at h
          obtain ⟨rfl, rfl, rfl⟩ := h
          exact .inr (.inl ⟨_, hs, by simp, rfl, rfl, .inl hline⟩)
      | some line =>
          rw [hline] at h
          obtain ⟨rfl, rfl, rfl⟩ := h
          rcases appendLine_cases fault file line with ⟨hr, hf, hfault⟩ | ⟨hf, hr, ho, ha⟩
          · exact .inr (.inl ⟨_, hs, hr, rfl, hf, .inr (.inr hfault)⟩)
          · refine .inr (.inr ⟨_, line, hs, hline, rfl, hf, ?_⟩)
            rcases fault with _ | step
            · exact .inl ⟨rfl, hr.mpr (by simp)⟩
            · cases step with
              | sync => exact .inr ⟨rfl, by simp [hr]⟩
              | canonical => exact absurd rfl hc
              | digest => exact absurd rfl hd
              | line => exact absurd rfl hl
              | openFile => exact absurd rfl ho
              | append => exact absurd rfl ha

theorem write_of_line {fault : Option WriteStep} {log : Log} {file : File} {ev e : Event} {line : Text}
    (hs : sealAfter serde B log.prevHash ev = some e) (hl : serde.toString e = some line)
    (hf : fault ≠ some .canonical ∧ fault ≠ some .digest ∧ fault ≠ some .line) :
    log.write serde B fault file ev =
      ((appendLine fault file line).1, ⟨e.hash⟩, (appendLine fault file line).2) := by
  obtain ⟨b, hb, rfl⟩ := Option.map_eq_some_iff.mp hs
  obtain ⟨hc, hd, hfl⟩ := hf
  rw [Log.write, if_neg hc, hb]
  dsimp only
  rw [if_neg hd, if_neg hfl, hl]
  rfl

def WriteStep.error : WriteStep → AuditError
  | .canonical | .line => .serde
  | .digest => .crypto
  | .openFile | .append | .sync => .io

/-- A plain event is written unless the system fails, and then the result tells the step. -/
theorem write_result (D : serde.Documented) (fault : Option WriteStep) (log : Log) (file : File) {ev : Event}
    (hp : ev.Plain) :
    (log.write serde B fault file ev).1 = fault.elim (.ok ()) fun step => .error step.error := by
  obtain ⟨e, hs⟩ := sealAfter_plain_some (B := B) D hp log.prevHash
  obtain ⟨line, hline⟩ := Option.isSome_iff_exists.mp (D.writes e (sealAfter_plain hs hp))
  obtain ⟨b, hb, rfl⟩ := Option.map_eq_some_iff.mp hs
  rw [Log.write, hb]
  dsimp only
  rw [hline]
  cases fault with
  | none => rfl
  | some step => cases step <;> rfl

theorem write_ok_iff (D : serde.Documented) {fault : Option WriteStep} (log : Log) (file : File) {ev : Event}
    (hp : ev.Plain) : (log.write serde B fault file ev).1 = .ok () ↔ fault = none := by
  rw [write_result D fault log file hp]
  cases fault <;> simp

theorem verifyFrom_valid {g : Text} {i : ℕ} {events : List Event} {v : ChainVerification}
    (h : verifyFrom serde B g i events = .ok v) (hv : v.valid = true) :
    (chain serde B).Linked g events := by
  induction events generalizing g i with
  | nil => trivial
  | cons ev rest ih =>
      simp only [verifyFrom] at h
      split_ifs at h with hp
      · cases h
        cases hv
      · cases hc : serde.toVec (ev.chained ev.prevHash []) with
        | none =>
            simp only [hc] at h
            cases h
        | some b =>
            simp only [hc] at h
            split_ifs at h with hd
            · cases h
              cases hv
            · exact ⟨not_not.mp hp, ⟨b, hc, not_not.mp hd⟩, ih h⟩

theorem verifyFrom_linked {g : Text} {events : List Event} (h : (chain serde B).Linked g events) (i : ℕ) :
    verifyFrom serde B g i events = .ok ⟨true, none, i + events.length⟩ := by
  induction events generalizing g i with
  | nil => rfl
  | cons ev rest ih =>
      obtain ⟨rfl, ⟨b, hb, hd⟩, hrest⟩ := h
      have hb' : serde.toVec (ev.chained ev.prevHash []) = some b := hb
      have hd' : hexDigest (Cng.sha256 B b) = ev.hash := hd
      change verifyFrom serde B ev.prevHash i (ev :: rest) = _
      rw [verifyFrom, if_neg (not_not.mpr rfl), hb']
      dsimp only
      rw [if_neg (not_not.mpr hd'), List.length_cons, Nat.add_comm rest.length, ← Nat.add_assoc]
      exact ih hrest (i + 1)

/-- `verify_chain` decides the chain predicate. -/
theorem verifyChain_iff_linked (events : List Event) :
    verifyChain serde B events = .ok ⟨true, none, events.length⟩ ↔
      (chain serde B).Linked genesisHash events := by
  constructor
  · intro h
    exact verifyFrom_valid h rfl
  · intro h
    rw [verifyChain, verifyFrom_linked h 0, Nat.zero_add]

theorem eventsOf_read {ls : List Text} {es : List Event} (h : eventsOf serde ls = .ok es) {e : Event}
    (he : e ∈ es) : ∃ l ∈ ls, serde.fromStr l = some e := by
  induction ls generalizing es with
  | nil =>
      cases h
      cases he
  | cons l ls ih =>
      rw [eventsOf] at h
      split_ifs at h with hb
      · obtain ⟨l', hl', hread⟩ := ih h he
        exact ⟨l', List.mem_cons_of_mem l hl', hread⟩
      · cases hl : serde.fromStr l with
        | none =>
            rw [hl] at h
            cases h
        | some ev =>
            rw [hl] at h
            cases hrest : eventsOf serde ls with
            | error err =>
                rw [hrest] at h
                cases h
            | ok fs =>
                rw [hrest] at h
                cases h
                rcases List.mem_cons.mp he with rfl | hmem
                · exact ⟨l, List.mem_cons_self, hl⟩
                · obtain ⟨l', hl', hread⟩ := ih hrest hmem
                  exact ⟨l', List.mem_cons_of_mem l hl', hread⟩

theorem readAll_times (T : serde.ReadsTimes) {file : File} {es : List Event} (h : readAll serde file = .ok es)
    {e : Event} (he : e ∈ es) : (Rfc3339.format e.ts).isSome = true := by
  cases file with
  | none =>
      cases h
      cases he
  | some bytes =>
      cases hd : decode bytes with
      | none => simp [readAll, hd] at h
      | some t =>
          simp only [readAll, hd] at h
          obtain ⟨l, -, hread⟩ := eventsOf_read h he
          exact T l e hread

theorem eventsOf_append (ls ms : List Text) :
    eventsOf serde (ls ++ ms) = (eventsOf serde ls).bind fun es => (eventsOf serde ms).map (es ++ ·) := by
  induction ls with
  | nil =>
      cases h : eventsOf serde ms <;> simp [eventsOf, h, Except.bind, Except.map]
  | cons l ls ih =>
      simp only [List.cons_append, eventsOf]
      split_ifs
      · exact ih
      · cases serde.fromStr l with
        | none => rfl
        | some ev =>
            dsimp only
            rw [ih]
            cases eventsOf serde ls with
            | error err => rfl
            | ok es => cases eventsOf serde ms <;> rfl

/-- `load_last_hash` and `read_all` agree on what the last record is. -/
theorem lastHashOf_eventsOf {ls : List Text} {es : List Event} (h : eventsOf serde ls = .ok es) :
    lastHashOf serde ls = .ok ((chain serde B).tip genesisHash es) := by
  induction ls using List.reverseRecOn generalizing es with
  | nil =>
      cases h
      rfl
  | append_singleton ls l ih =>
      rw [eventsOf_append] at h
      cases hls : eventsOf serde ls with
      | error err =>
          rw [hls] at h
          cases h
      | ok fs =>
          rw [hls] at h
          simp only [Except.bind, eventsOf] at h
          simp only [lastHashOf, List.reverse_append, List.reverse_cons, List.reverse_nil, List.nil_append,
            List.singleton_append, List.find?_cons]
          split_ifs at h with hb
          · simp only [Except.map, List.append_nil] at h
            cases h
            simpa only [hb, Bool.not_true, lastHashOf] using ih hls
          · cases hl : serde.fromStr l with
            | none =>
                rw [hl] at h
                cases h
            | some ev =>
                rw [hl] at h
                cases h
                simp only [hb, Bool.not_false, hl]
                rw [HashChain.tip_concat]
                rfl

def Terminated (t : Text) : Prop := t = [] ∨ t.getLast? = some '\n'

theorem lines_append_terminated {t : Text} (h : Terminated t) (u : Text) :
    lines (t ++ u) = lines t ++ lines u := by
  rcases h with rfl | h
  · rfl
  · exact lines_append h u

/-- The file is a text of terminated lines that read as `es`. -/
def Holds (serde : SerdeJson) (file : File) (es : List Event) : Prop :=
  ∃ t, file.getD [] = encode t ∧ Terminated t ∧ eventsOf serde (lines t) = .ok es

theorem holds_absent : Holds serde none [] := ⟨[], rfl, .inl rfl, rfl⟩

theorem holds_empty : Holds serde (some []) [] := ⟨[], rfl, .inl rfl, rfl⟩

theorem Holds.readAll {file : File} {es : List Event} (h : Holds serde file es) :
    readAll serde file = .ok es := by
  obtain ⟨t, ht, -, hes⟩ := h
  cases file with
  | none =>
      obtain rfl := encode_injective (s := []) (t := t) ht
      cases hes
      rfl
  | some bytes =>
      have hb : bytes = encode t := ht
      simpa only [Audit.readAll, hb, decode_encode] using hes

theorem loadLastHash_of_readAll {file : File} {es : List Event} (h : readAll serde file = .ok es) :
    loadLastHash serde file = .ok ((chain serde B).tip genesisHash es) := by
  cases file with
  | none =>
      cases h
      rfl
  | some bytes =>
      cases hd : decode bytes with
      | none => simp [readAll, hd] at h
      | some t =>
          simp only [readAll, hd] at h
          simpa only [Audit.loadLastHash, hd] using lastHashOf_eventsOf h

/-- The log that `Log::open` makes of a file continues the file's chain. -/
theorem Holds.openLog {file : File} {es : List Event} (h : Holds serde file es) :
    Log.openLog serde file = .ok ⟨(chain serde B).tip genesisHash es⟩ := by
  rw [Log.openLog, loadLastHash_of_readAll (B := B) h.readAll]
  rfl

theorem SerdeJson.Documented.oneLine {serde : SerdeJson} (D : serde.Documented) {e : Event} {t : Text}
    (h : serde.toString e = some t) : OneLine t ∧ isBlank t = false := by
  obtain ⟨u, hu⟩ := D.object e t h
  have hesc := D.escaped e t h
  refine ⟨⟨fun hn => ?_, fun hr => ?_⟩, ?_⟩
  · exact absurd (hesc _ hn) (by decide)
  · exact absurd (hesc _ (List.mem_of_getLast? hr)) (by decide)
  · rw [hu]
    exact isBlank_cons_of_visible (by decide) u

theorem Holds.append (D : serde.Documented) {file : File} {es : List Event} (h : Holds serde file es)
    {e : Event} (hp : e.Plain) {line : Text} (hl : serde.toString e = some line) :
    Holds serde (some (file.getD [] ++ encode (line ++ ['\n']))) (es ++ [e]) := by
  obtain ⟨t, ht, hterm, hes⟩ := h
  obtain ⟨hone, hblank⟩ := D.oneLine hl
  refine ⟨t ++ (line ++ ['\n']), by simp [ht], .inr (by simp), ?_⟩
  have hlines : lines (line ++ ['\n']) = [line] := by
    rw [lines_terminated hone.1, hone.stripCr, lines_nil]
  rw [lines_append_terminated hterm, hlines, eventsOf_append, hes]
  simp [Except.bind, eventsOf, hblank, D.reads e line hp hl, Except.map]

/-- A blank line at the end says nothing. -/
theorem Holds.padded {bytes : Bytes} {es : List Event} (h : Holds serde (some bytes) es) :
    Holds serde (some (bytes ++ [10])) es := by
  obtain ⟨t, ht, hterm, hes⟩ := h
  have ht' : bytes = encode t := ht
  refine ⟨t ++ ['\n'], by simp [ht', encode_append]; rfl, .inr (by simp), ?_⟩
  have hblank : eventsOf serde (lines ['\n']) = .ok [] := rfl
  rw [lines_append_terminated hterm, eventsOf_append, hes, hblank]
  simp [Except.bind, Except.map]

end
end FipsDropbox.Audit
