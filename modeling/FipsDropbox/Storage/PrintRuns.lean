import Mathlib.Logic.Relation
import FipsDropbox.Storage.Prints

/-!
# Prints over runs that may stop anywhere

Insertions and deletions as machines that take one step at a time, each under a host of
its own, so that a run can stop between any two steps and inside the write of a file. The
order of the steps keeps every row with its file: the file comes before the row, and the
row goes before the file.
-/
namespace FipsDropbox.Storage
open Utf8 Exec Crypto Relation

namespace PrintStore

structure NewPrint where
  filename : Text
  plaintext : Bytes
  uploadedBy : Uuid
  cuiAttested : Bool

/-- What a call has done so far: an insertion has sealed its plaintext, written the file,
been refused its row; a deletion has found the print, removed its row. -/
inductive Phase where
  | idle
  | sealing (env : Env) (new : NewPrint)
  | writing (env : Env) (new : NewPrint) (p : SealedPrint)
  | inserting (env : Env) (new : NewPrint) (p : SealedPrint)
  | cleaning (env : Env)
  | finding (env : Env) (id : Uuid)
  | dropping (env : Env) (id : Uuid) (print : Print)
  | unlinking (env : Env) (print : Print)

def NewPrint.row (new : NewPrint) (env : Env) (p : SealedPrint) : PrintRow :=
  newPrintRow (env.newId .print) new.filename new.plaintext.length p.sha256 p.dekWrapped p.box new.uploadedBy
    (env.now .printUploaded).time new.cuiAttested

section
variable (B : Bcrypt) (kek : Octets 32)

/-- One step of `insert` or `delete`. -/
def Phase.next : Phase → Store → Phase × Store
  | .idle, s => (.idle, s)
  | .sealing env new, s =>
      match sealPrint env B kek new.plaintext s with
      | (.ok p, s') => (.writing env new p, s')
      | (_, s') => (.idle, s')
  | .writing env new p, s =>
      match writeBlob env (blobPathOf (env.newId .print)) p.box.ciphertext s with
      | (.ok _, s') => (.inserting env new p, s')
      | (_, s') => (.idle, s')
  | .inserting env new p, s =>
      match execute env .insertPrint (Db.insertPrint (new.row env p)) s with
      | (.ok _, s') => (.idle, s')
      | (_, s') => (.cleaning env, s')
  | .cleaning env, s => (.idle, removeBlob env (blobPathOf (env.newId .print)) s)
  | .finding env id, s =>
      match find env .selectPrint id s with
      | (.ok (some print), s') => (.dropping env id print, s')
      | (_, s') => (.idle, s')
  | .dropping env id print, s =>
      match execute env .deletePrint (Db.deletePrint id.val) s with
      | (.ok _, s') => (.unlinking env print, s')
      | (_, s') => (.idle, s')
  | .unlinking env print, s => (.idle, removeBlob env print.blobPath s)

/-- The store, the call under way, and the identifiers and plaintexts of all insertions. -/
structure Machine where
  store : Store
  phase : Phase
  given : List (Uuid × Bytes)

def Machine.next (m : Machine) : Machine :=
  { m with phase := (m.phase.next B kek m.store).1, store := (m.phase.next B kek m.store).2 }

def Machine.start (s : Store) : Machine := ⟨s, .idle, []⟩

def References (db : Db) : Prop := ∀ share ∈ db.shares.rows, ∃ row ∈ db.prints.rows, row.id = share.printId

/-- A call, a step of it, a stop, or a change from elsewhere that SQLite accepts. -/
inductive Step : Machine → Machine → Prop
  | insert {m : Machine} (env : Env) (new : NewPrint) (idle : m.phase = .idle)
      (fresh : env.newId .print ∉ m.given.map Prod.fst) (short : new.plaintext.length < 2 ^ 32) :
      Step m { m with phase := .sealing env new, given := (env.newId .print, new.plaintext) :: m.given }
  | delete {m : Machine} (env : Env) (id : Uuid) (idle : m.phase = .idle) :
      Step m { m with phase := .finding env id }
  | next (m : Machine) : Step m (m.next B kek)
  | stop (m : Machine) : Step m { m with phase := .idle }
  | stopWriting {m : Machine} {env : Env} {new : NewPrint} {p : SealedPrint} (n : ℕ)
      (writing : m.phase = .writing env new p) :
      Step m { m with
        phase := .idle
        store := m.store.setBlob (blobPathOf (env.newId .print)) (some (p.box.ciphertext.take n)) }
  | elsewhere {m : Machine} (t : Store) (prints : t.db.prints = m.store.db.prints)
      (blobs : t.blobs = m.store.blobs) (references : References t.db) : Step m { m with store := t }

/-- Every row is that of an insertion, and its file opens to the plaintext of that insertion. -/
def Filed (s : Store) (given : List (Uuid × Bytes)) : Prop :=
  ∀ row ∈ s.db.prints.rows, ∃ id filename plaintext, row.id = id.val ∧ (id, plaintext) ∈ given ∧
    Stored B kek s id filename plaintext

def Absent (id : Uuid) (s : Store) : Prop := ∀ row ∈ s.db.prints.rows, row.id ≠ id.val

/-- An insertion whose row is not there yet. -/
structure Pending (env : Env) (new : NewPrint) (s : Store) (given : List (Uuid × Bytes)) : Prop where
  given : (env.newId .print, new.plaintext) ∈ given
  absent : Absent (env.newId .print) s
  short : new.plaintext.length < 2 ^ 32

def Phase.Ready (s : Store) (given : List (Uuid × Bytes)) : Phase → Prop
  | .idle => True
  | .sealing env new => Pending env new s given
  | .writing env new p => Pending env new s given ∧ p.Holds B kek (env.newId .print) new.plaintext
  | .inserting env new p => Pending env new s given ∧ p.Holds B kek (env.newId .print) new.plaintext ∧
      s.blobs (blobPathOf (env.newId .print)) = some p.box.ciphertext
  | .cleaning env => Absent (env.newId .print) s
  | .finding _ _ => True
  | .dropping _ id print => print.blobPath = blobPathOf id
  | .unlinking _ print => ∃ id, print.blobPath = blobPathOf id ∧ Absent id s

structure Intact (m : Machine) : Prop where
  filed : Filed B kek m.store m.given
  ready : m.phase.Ready B kek m.store m.given
  once : (m.given.map Prod.fst).Nodup
  references : References m.store.db

end

section
variable {B : Bcrypt} {kek : Octets 32} {s : Store} {given : List (Uuid × Bytes)}

theorem Filed.setBlob (h : Filed B kek s given) {id : Uuid} (hid : Absent id s) (content : Option Bytes) :
    Filed B kek (s.setBlob (blobPathOf id) content) given := by
  intro row hrow
  obtain ⟨id', filename, plaintext, hrid, hgiven, hstored⟩ := h row hrow
  refine ⟨id', filename, plaintext, hrid, hgiven, hstored.setBlob ?_ content⟩
  rintro rfl
  exact hid row hrow hrid

theorem Filed.removeBlob (h : Filed B kek s given) {id : Uuid} (hid : Absent id s) (env : Env) :
    Filed B kek (removeBlob env (blobPathOf id) s) given := by
  unfold PrintStore.removeBlob
  split_ifs
  · exact h
  · exact h.setBlob hid none

theorem removeBlob_db (env : Env) (path : Text) (s : Store) : (removeBlob env path s).db = s.db := by
  unfold removeBlob
  split_ifs <;> rfl

theorem Filed.insertRow (h : Filed B kek s given) {env : Env} {new : NewPrint} {p : SealedPrint}
    (hpending : Pending env new s given) (hholds : p.Holds B kek (env.newId .print) new.plaintext)
    (hblob : s.blobs (blobPathOf (env.newId .print)) = some p.box.ciphertext)
    {prints : Table PrintRow Bytes [PrintRow.id]} (hins : s.db.prints.insert (new.row env p) = some prints) :
    Filed B kek { s with db := { s.db with prints } } given := by
  intro row hrow
  rcases (Table.mem_of_insert hins).mp hrow with hold | rfl
  · obtain ⟨id, filename, plaintext, hrid, hgiven, hstored⟩ := h row hold
    exact ⟨id, filename, plaintext, hrid, hgiven, hstored.insertRow hins⟩
  · exact ⟨_, new.filename, new.plaintext, rfl, hpending.given, hholds.stored hrow hblob⟩

theorem Filed.deleteRow (h : Filed B kek s given) (id : Uuid) :
    Filed B kek { s with db := { s.db with prints := (s.db.prints.delete fun r => r.id = id.val).2 } } given := by
  intro row hrow
  obtain ⟨hmem, hne⟩ := List.mem_filter.mp hrow
  obtain ⟨id', filename, plaintext, hrid, hgiven, row', print, ct, dek, hrow', hrid', hrest⟩ := h row hmem
  refine ⟨id', filename, plaintext, hrid, hgiven, row', print, ct, dek, List.mem_filter.mpr ⟨hrow', ?_⟩, hrid', hrest⟩
  simpa only [hrid', ← hrid] using hne

theorem Filed.sameFiles (h : Filed B kek s given) {t : Store} (hprints : t.db.prints = s.db.prints)
    (hblobs : t.blobs = s.blobs) : Filed B kek t given := by
  intro row hrow
  rw [hprints] at hrow
  obtain ⟨id, filename, plaintext, hrid, hgiven, hstored⟩ := h row hrow
  exact ⟨id, filename, plaintext, hrid, hgiven, hstored.sameFiles hprints hblobs⟩

theorem Filed.path (h : Filed B kek s given) {env : Env} {c : Call} {id : Uuid} {print : Print} {t : Store}
    (hfind : find env c id s = (.ok (some print), t)) : print.blobPath = blobPathOf id := by
  obtain ⟨-, ⟨row, hrow, hprint⟩, -⟩ := find_some_iff.mp hfind
  obtain ⟨hmem, hrid⟩ := Table.find_some hrow
  obtain ⟨id', filename, plaintext, hid', -, row', print', ct, dek, hrow', hrid', hprint', -, -, -, hpath, -⟩ := h row hmem
  obtain rfl : id' = id := Subtype.ext (hid'.symm.trans (of_decide_eq_true hrid))
  obtain rfl : row' = row := Table.eq_of_key List.mem_cons_self hrow' hmem (hrid'.trans hid'.symm)
  cases hprint.symm.trans hprint'
  exact hpath

theorem References.insertRow (h : References s.db) {new : PrintRow} {prints : Table PrintRow Bytes [PrintRow.id]}
    (hins : s.db.prints.insert new = some prints) : References { s.db with prints } := by
  intro share hshare
  obtain ⟨row, hrow, hid⟩ := h share hshare
  exact ⟨row, (Table.mem_of_insert hins).mpr (.inl hrow), hid⟩

end

/-- A print that a share refers to is not deleted. -/
theorem deletePrint_some {id : Bytes} {db db' : Db} {n : ℕ} (h : Db.deletePrint id db = some (n, db')) :
    db' = { db with prints := (db.prints.delete fun r => r.id = id).2 } ∧
      ∀ share ∈ db.shares.rows, share.printId = id → ∀ row ∈ db.prints.rows, row.id ≠ id := by
  unfold Db.deletePrint at h
  split_ifs at h with hrefused
  cases h
  refine ⟨rfl, fun share hshare hid row hrow hrid => hrefused ?_⟩
  rw [Bool.and_eq_true]
  exact ⟨Table.has_of_mem hrow hrid, Table.has_of_mem hshare hid⟩

theorem References.deleteRow {db db' : Db} (h : References db) {id : Bytes} {n : ℕ}
    (hdel : Db.deletePrint id db = some (n, db')) : References db' := by
  obtain ⟨rfl, hfree⟩ := deletePrint_some hdel
  intro share hshare
  obtain ⟨row, hrow, hid⟩ := h share hshare
  refine ⟨row, List.mem_filter.mpr ⟨hrow, ?_⟩, hid⟩
  have hne : row.id ≠ id := fun hrid => hfree share hshare (hid.symm.trans hrid) row hrow hrid
  simpa using hne

section
variable {B : Bcrypt} {kek : Octets 32} {given : List (Uuid × Bytes)}

theorem Pending.of_prints {env : Env} {new : NewPrint} {s t : Store} (h : Pending env new s given)
    (hprints : t.db.prints = s.db.prints) : Pending env new t given := by
  refine ⟨h.given, ?_, h.short⟩
  intro row hrow
  exact h.absent row (hprints ▸ hrow)

/-- Only prints and files matter to a call that is under way. -/
theorem Phase.Ready.sameFiles {phase : Phase} {s t : Store} (h : phase.Ready B kek s given)
    (hprints : t.db.prints = s.db.prints) (hblobs : t.blobs = s.blobs) : phase.Ready B kek t given := by
  cases phase with
  | idle => trivial
  | sealing env new => exact h.of_prints hprints
  | writing env new p => exact ⟨h.1.of_prints hprints, h.2⟩
  | inserting env new p => exact ⟨h.1.of_prints hprints, h.2.1, hblobs ▸ h.2.2⟩
  | cleaning env => exact fun row hrow => h row (hprints ▸ hrow)
  | finding env id => trivial
  | dropping env id print => exact h
  | unlinking env print =>
      obtain ⟨id, hpath, habsent⟩ := h
      exact ⟨id, hpath, fun row hrow => habsent row (hprints ▸ hrow)⟩

theorem Intact.next (D : B.Documented) {m : Machine} (h : Intact B kek m) : Intact B kek (m.next B kek) := by
  obtain ⟨hfiled, hready, honce, hrefs⟩ := h
  obtain ⟨s, phase, given⟩ := m
  cases phase with
  | idle => exact ⟨hfiled, trivial, honce, hrefs⟩
  | sealing env new =>
      rcases hseal : sealPrint env B kek new.plaintext s with ⟨o, t⟩
      obtain rfl : t = s := (stays_sealPrint _).of_run hseal
      cases o with
      | ok p =>
          simp only [Machine.next, Phase.next, hseal]
          exact ⟨hfiled, ⟨hready, sealPrint_holds D hready.short hseal⟩, honce, hrefs⟩
      | err e =>
          simp only [Machine.next, Phase.next, hseal]
          exact ⟨hfiled, trivial, honce, hrefs⟩
      | panic =>
          simp only [Machine.next, Phase.next, hseal]
          exact ⟨hfiled, trivial, honce, hrefs⟩
  | writing env new p =>
      obtain ⟨hpending, hholds⟩ := hready
      cases hw : env.fails .writeBlob with
      | false =>
          simp only [Machine.next, Phase.next, writeBlob, hw, Bool.false_eq_true, if_false]
          exact ⟨hfiled.setBlob hpending.absent _, ⟨hpending.of_prints rfl, hholds, if_pos rfl⟩, honce, hrefs⟩
      | true =>
          simp only [Machine.next, Phase.next, writeBlob, hw, if_true]
          cases env.partialWrite with
          | none => exact ⟨hfiled, trivial, honce, hrefs⟩
          | some n => exact ⟨hfiled.setBlob hpending.absent _, trivial, honce, hrefs⟩
  | inserting env new p =>
      obtain ⟨hpending, hholds, hblob⟩ := hready
      rcases execute_cases env .insertPrint (Db.insertPrint (new.row env p)) s with
        ⟨e, hrun, -⟩ | ⟨n, db, -, hdb, hrun⟩
      · simp only [Machine.next, Phase.next, hrun]
        exact ⟨hfiled, hpending.absent, honce, hrefs⟩
      · obtain ⟨prints, hins, rfl⟩ := insertPrint_some hdb
        simp only [Machine.next, Phase.next, hrun]
        exact ⟨hfiled.insertRow hpending hholds hblob hins, trivial, honce, hrefs.insertRow hins⟩
  | cleaning env =>
      simp only [Machine.next, Phase.next]
      refine ⟨hfiled.removeBlob hready env, trivial, honce, ?_⟩
      rw [removeBlob_db]
      exact hrefs
  | finding env id =>
      rcases hfind : find env .selectPrint id s with ⟨o, t⟩
      obtain rfl : t = s := (moves_find stays_frame _ _).of_run hfind
      rcases o with (_ | print) | e | _
      · simp only [Machine.next, Phase.next, hfind]
        exact ⟨hfiled, trivial, honce, hrefs⟩
      · simp only [Machine.next, Phase.next, hfind]
        exact ⟨hfiled, hfiled.path hfind, honce, hrefs⟩
      · simp only [Machine.next, Phase.next, hfind]
        exact ⟨hfiled, trivial, honce, hrefs⟩
      · simp only [Machine.next, Phase.next, hfind]
        exact ⟨hfiled, trivial, honce, hrefs⟩
  | dropping env id print =>
      rcases execute_cases env .deletePrint (Db.deletePrint id.val) s with ⟨e, hrun, -⟩ | ⟨n, db, -, hdb, hrun⟩
      · simp only [Machine.next, Phase.next, hrun]
        exact ⟨hfiled, trivial, honce, hrefs⟩
      · have hkept := References.deleteRow hrefs hdb
        obtain ⟨rfl, -⟩ := deletePrint_some hdb
        simp only [Machine.next, Phase.next, hrun]
        refine ⟨hfiled.deleteRow id, ⟨id, hready, ?_⟩, honce, hkept⟩
        intro row hrow
        simpa using (List.mem_filter.mp hrow).2
  | unlinking env print =>
      obtain ⟨id, hpath, habsent⟩ := hready
      simp only [Machine.next, Phase.next]
      refine ⟨?_, trivial, honce, ?_⟩
      · rw [hpath]
        exact hfiled.removeBlob habsent env
      · rw [removeBlob_db]
        exact hrefs

/-- The step lemma. -/
theorem Intact.step (D : B.Documented) {m m' : Machine} (h : Intact B kek m) (hstep : Step B kek m m') :
    Intact B kek m' := by
  cases hstep with
  | insert env new idle fresh short =>
      have habsent : Absent (env.newId .print) m.store := by
        intro row hrow hid
        obtain ⟨id, filename, plaintext, hrid, hgiven, -⟩ := h.filed row hrow
        obtain rfl : env.newId .print = id := Subtype.ext (hid.symm.trans hrid)
        exact fresh (List.mem_map.mpr ⟨_, hgiven, rfl⟩)
      refine ⟨?_, ⟨List.mem_cons_self, habsent, short⟩, List.nodup_cons.mpr ⟨fresh, h.once⟩, h.references⟩
      intro row hrow
      obtain ⟨id, filename, plaintext, hrid, hgiven, hstored⟩ := h.filed row hrow
      exact ⟨id, filename, plaintext, hrid, List.mem_cons_of_mem _ hgiven, hstored⟩
  | delete env id idle => exact ⟨h.filed, trivial, h.once, h.references⟩
  | next => exact h.next D
  | stop => exact ⟨h.filed, trivial, h.once, h.references⟩
  | stopWriting n writing =>
      have hready := h.ready
      rw [writing] at hready
      exact ⟨h.filed.setBlob hready.1.absent _, trivial, h.once, h.references⟩
  | elsewhere t prints blobs references =>
      exact ⟨h.filed.sameFiles prints blobs, h.ready.sameFiles prints blobs, h.once, references⟩

theorem intact_of_run (D : B.Documented) {s : Store} (hprints : s.db.prints.rows = [])
    (hshares : s.db.shares.rows = []) {m : Machine} (h : ReflTransGen (Step B kek) (.start s) m) :
    Intact B kek m := by
  induction h with
  | refl =>
      refine ⟨?_, trivial, List.nodup_nil, ?_⟩
      · intro row hrow
        rw [Machine.start, hprints] at hrow
        cases hrow
      · intro share hshare
        rw [Machine.start, hshares] at hshare
        cases hshare
  | tail _ hstep ih => exact ih.step D hstep

end

section
variable {B : Bcrypt} {kek : Octets 32}

theorem iterate_next (m : Machine) (n : ℕ) : ReflTransGen (Step B kek) m ((Machine.next B kek)^[n] m) := by
  induction n with
  | zero => exact .refl
  | succ n ih =>
      rw [Function.iterate_succ_apply']
      exact ih.tail (.next _)

theorem insert_iterate (env : Env) (new : NewPrint) (s : Store) (given : List (Uuid × Bytes)) :
    (Machine.next B kek)^[4] ⟨s, .sealing env new, given⟩ =
      ⟨(insert env B kek new.filename new.plaintext new.uploadedBy new.cuiAttested s).2, .idle, given⟩ := by
  rw [insert_eq]
  simp only [Function.iterate_succ_apply, Function.iterate_zero_apply]
  rcases hseal : sealPrint env B kek new.plaintext s with ⟨p | e | _, t⟩
  · rw [bind_ok hseal, storePrint]
    simp only [Machine.next, Phase.next, hseal]
    rcases hw : writeBlob env (blobPathOf (env.newId .print)) p.box.ciphertext t with ⟨u | e | _, t'⟩
    · rw [bind_ok hw]
      rcases execute_cases env .insertPrint (Db.insertPrint (newPrintRow (env.newId .print) new.filename
          new.plaintext.length p.sha256 p.dekWrapped p.box new.uploadedBy (env.now .printUploaded).time
          new.cuiAttested)) t' with ⟨e, hins, -⟩ | ⟨n, db, -, -, hins⟩
      · simp only [NewPrint.row, hins]
        rw [bind_err (onError_err hins _)]
      · simp only [NewPrint.row, hins]
        rw [bind_ok (onError_ok_iff.mpr hins)]
        rfl
    · rw [bind_err hw]
    · rw [bind_panic hw]
  · rw [bind_err hseal]
    simp only [Machine.next, Phase.next, hseal]
  · rw [bind_panic hseal]
    simp only [Machine.next, Phase.next, hseal]

theorem delete_iterate (env : Env) (id : Uuid) (s : Store) (given : List (Uuid × Bytes)) :
    (Machine.next B kek)^[3] ⟨s, .finding env id, given⟩ = ⟨(delete env id s).2, .idle, given⟩ := by
  simp only [Function.iterate_succ_apply, Function.iterate_zero_apply]
  rcases hfind : find env .selectPrint id s with ⟨(_ | print) | e | _, t⟩
  · rw [delete, bind_ok hfind]
    simp only [Machine.next, Phase.next, hfind]
    rfl
  · rw [delete, bind_ok hfind]
    simp only [Machine.next, Phase.next, hfind]
    rcases execute_cases env .deletePrint (Db.deletePrint id.val) t with ⟨e, hdel, -⟩ | ⟨n, db, -, -, hdel⟩
    · simp only [hdel]
      rw [bind_ok (orErr_ok_iff.mpr ⟨rfl, rfl⟩), bind_err hdel]
    · simp only [hdel]
      rw [bind_ok (orErr_ok_iff.mpr ⟨rfl, rfl⟩), bind_ok hdel]
      rfl
  · rw [delete, bind_err hfind]
    simp only [Machine.next, Phase.next, hfind]
  · rw [delete, bind_panic hfind]
    simp only [Machine.next, Phase.next, hfind]

theorem insert_run {m : Machine} (env : Env) (new : NewPrint) (hidle : m.phase = .idle)
    (hfresh : env.newId .print ∉ m.given.map Prod.fst) (hlen : new.plaintext.length < 2 ^ 32) :
    ReflTransGen (Step B kek) m
      ⟨(insert env B kek new.filename new.plaintext new.uploadedBy new.cuiAttested m.store).2, .idle,
        (env.newId .print, new.plaintext) :: m.given⟩ := by
  have hcall : Step B kek m ⟨m.store, .sealing env new, (env.newId .print, new.plaintext) :: m.given⟩ :=
    .insert env new hidle hfresh hlen
  rw [← insert_iterate]
  exact .head hcall (iterate_next _ 4)

theorem delete_run {m : Machine} (env : Env) (id : Uuid) (hidle : m.phase = .idle) :
    ReflTransGen (Step B kek) m ⟨(delete env id m.store).2, .idle, m.given⟩ := by
  have hcall : Step B kek m ⟨m.store, .finding env id, m.given⟩ := .delete env id hidle
  rw [← delete_iterate]
  exact .head hcall (iterate_next _ 3)

def ReadsBack (B : Bcrypt) (kek : Octets 32) (s : Store) (id : Uuid) (plaintext : Bytes) : Prop :=
  ∀ env : Env, (∀ c ∈ readBlobCalls, env.fails c = false) → readBlob env B kek id s = (.ok plaintext, s)

def Undeletable (s : Store) (id : Uuid) : Prop := ∀ env, ∃ e, delete env id s = (.err e, s)

/-- What the only insertion under the identifier was given. -/
def Machine.Given (m : Machine) (id : Uuid) (plaintext : Bytes) : Prop :=
  (id, plaintext) ∈ m.given ∧ ∀ plaintext', (id, plaintext') ∈ m.given → plaintext' = plaintext

theorem Stored.readsBack {s : Store} {id : Uuid} {filename : Text} {plaintext : Bytes}
    (h : Stored B kek s id filename plaintext) : ReadsBack B kek s id plaintext := by
  obtain ⟨print, hopen, -⟩ := h.openable
  exact fun env hcalls => readBlob_ok_iff.mpr ⟨hcalls, ⟨print, hopen⟩, rfl⟩

theorem undeletable_of_share {s : Store} {share : ShareRow} (hshare : share ∈ s.db.shares.rows) {row : PrintRow}
    (hrow : row ∈ s.db.prints.rows) {id : Uuid} (hrid : row.id = id.val) (hid : share.printId = id.val) :
    Undeletable s id := by
  intro env
  rcases hfind : find env .selectPrint id s with ⟨(_ | print) | e | _, t⟩ <;>
    obtain rfl : t = s := (moves_find stays_frame _ _).of_run hfind
  · exact ⟨.notFound, by rw [delete, bind_ok hfind]; rfl⟩
  · rcases execute_cases env .deletePrint (Db.deletePrint id.val) t with ⟨e, hdel, -⟩ | ⟨n, db, -, hdb, -⟩
    · refine ⟨.sqlite e, ?_⟩
      rw [delete, bind_ok hfind, bind_ok (orErr_ok_iff.mpr ⟨rfl, rfl⟩), bind_err hdel]
    · exact absurd hrid ((deletePrint_some hdb).2 share hshare hid row hrow)
  · exact ⟨e, by rw [delete, bind_err hfind]⟩
  · exact absurd (congrArg Prod.fst hfind) (calm_queryRow _ _ _ t)

theorem Intact.given {m : Machine} (h : Intact B kek m) {id : Uuid} {plaintext : Bytes}
    (hgiven : (id, plaintext) ∈ m.given) : m.Given id plaintext := by
  refine ⟨hgiven, fun plaintext' hgiven' => ?_⟩
  exact (Prod.ext_iff.mp (List.inj_on_of_nodup_map h.once hgiven' hgiven rfl)).2

/-- In every state of every run, every row reads back as the plaintext of its insertion, and
a print that a share refers to cannot be deleted. -/
theorem prints_read_back (D : B.Documented) {s : Store} (hprints : s.db.prints.rows = [])
    (hshares : s.db.shares.rows = []) {m : Machine} (h : ReflTransGen (Step B kek) (.start s) m) :
    (∀ row ∈ m.store.db.prints.rows, ∃ id plaintext, row.id = id.val ∧ m.Given id plaintext ∧
      ReadsBack B kek m.store id plaintext) ∧
    ∀ share ∈ m.store.db.shares.rows, ∃ id plaintext, share.printId = id.val ∧ m.Given id plaintext ∧
      ReadsBack B kek m.store id plaintext ∧ Undeletable m.store id := by
  have hintact := intact_of_run D hprints hshares h
  have hrows : ∀ row ∈ m.store.db.prints.rows, ∃ id plaintext, row.id = id.val ∧ m.Given id plaintext ∧
      ReadsBack B kek m.store id plaintext := by
    intro row hrow
    obtain ⟨id, filename, plaintext, hrid, hgiven, hstored⟩ := hintact.filed row hrow
    exact ⟨id, plaintext, hrid, hintact.given hgiven, hstored.readsBack⟩
  refine ⟨hrows, ?_⟩
  intro share hshare
  obtain ⟨row, hrow, href⟩ := hintact.references share hshare
  obtain ⟨id, plaintext, hrid, hgiven, hreads⟩ := hrows row hrow
  have hid : share.printId = id.val := href.symm.trans hrid
  exact ⟨id, plaintext, hid, hgiven, hreads, undeletable_of_share hshare hrow hrid hid⟩

end

def sampleHost (n : UInt8) : Env where
  now _ := .unixEpoch
  random _ k := some ⟨List.replicate k 3, List.length_replicate⟩
  newId _ := ⟨List.replicate 15 6 ++ [n], rfl⟩
  fails _ := false
  partialWrite := none

def sampleOwner : UserRow where
  id := List.replicate 16 5
  email := "owner@example.com".toList
  role := "admin".toList
  passwordHash := []
  passwordSalt := []
  passwordIters := 600000
  totpSecretWrapped := none
  createdAt := 0
  disabledAt := none

def sampleStore : Store := { Store.fresh with db := { Db.empty with users := ⟨[sampleOwner], by simp⟩ } }

def samplePrint : NewPrint where
  filename := "bracket.stl".toList
  plaintext := encode "solid bracket".toList
  uploadedBy := ⟨List.replicate 16 5, rfl⟩
  cuiAttested := true

def sampleKek : Octets 32 := ⟨List.replicate 32 9, rfl⟩

def samplePrintId (n : UInt8) : Uuid := (sampleHost n).newId .print

def insertSample (n : UInt8) (s : Store) : Store :=
  (insert (sampleHost n) .reference sampleKek samplePrint.filename samplePrint.plaintext samplePrint.uploadedBy
    samplePrint.cuiAttested s).2

def sampleVendor : VendorRow where
  id := List.replicate 16 4
  displayName := "Vendor".toList
  primaryEmail := "vendor@example.com".toList
  primaryPhone := none
  primaryUserId := none
  createdBy := List.replicate 16 5
  createdAt := 0
  disabledAt := none

def sampleShare : ShareRow where
  id := List.replicate 16 8
  printId := (samplePrintId 1).val
  vendorId := sampleVendor.id
  tokenHash := List.replicate 32 0
  accessCodeHash := List.replicate 32 1
  expiresAt := 1000
  maxDownloads := 3
  downloadCount := 0
  senderNote := none
  createdBy := List.replicate 16 5
  createdAt := 0
  revokedAt := none

def referredStore : Store :=
  let s := insertSample 2 (insertSample 1 sampleStore)
  { s with db := { s.db with vendors := ⟨[sampleVendor], by simp⟩, shares := ⟨[sampleShare], by simp⟩ } }

/-- Two insertions, a share of the first print, the deletion of both as far as it goes, and
a third insertion that is stopped as it begins. -/
def sampleMachine : Machine where
  store := (delete (sampleHost 1) (samplePrintId 1) (delete (sampleHost 1) (samplePrintId 2) referredStore).2).2
  phase := .idle
  given := [3, 2, 1].map fun n => (samplePrintId n, samplePrint.plaintext)

theorem sampleMachine_run : ReflTransGen (Step .reference sampleKek) (.start sampleStore) sampleMachine := by
  have hfirst : ReflTransGen (Step .reference sampleKek) (.start sampleStore)
      ⟨insertSample 1 sampleStore, .idle, [(samplePrintId 1, samplePrint.plaintext)]⟩ :=
    insert_run (sampleHost 1) samplePrint rfl List.not_mem_nil (by decide)
  have hsecond := hfirst.trans (insert_run (sampleHost 2) samplePrint rfl (by decide) (by decide))
  have hprinted : (insertSample 2 (insertSample 1 sampleStore)).db.prints.has PrintRow.id (samplePrintId 1).val =
      true := by decide +kernel
  have hshared := hsecond.tail (.elsewhere referredStore rfl rfl ?_)
  · have hdeleted := (hshared.trans (delete_run (sampleHost 1) (samplePrintId 2) rfl)).trans
      (delete_run (sampleHost 1) (samplePrintId 1) rfl)
    exact (hdeleted.tail (.insert (sampleHost 3) samplePrint rfl (by decide) (by decide))).tail (.stop _)
  · intro share hshare
    obtain rfl := List.mem_singleton.mp hshare
    exact Table.has_iff.mp hprinted

theorem prints_read_back_sample :
    sampleMachine.store.db.prints.rows.map PrintRow.id = [(samplePrintId 1).val] ∧
    sampleMachine.store.db.shares.rows.map ShareRow.printId = [(samplePrintId 1).val] ∧
    (∀ row ∈ sampleMachine.store.db.prints.rows, ∃ id plaintext, row.id = id.val ∧ sampleMachine.Given id plaintext ∧
      ReadsBack .reference sampleKek sampleMachine.store id plaintext) ∧
    ∀ share ∈ sampleMachine.store.db.shares.rows, ∃ id plaintext, share.printId = id.val ∧
      sampleMachine.Given id plaintext ∧ ReadsBack .reference sampleKek sampleMachine.store id plaintext ∧
      Undeletable sampleMachine.store id := by
  have hprints : sampleMachine.store.db.prints.rows.map PrintRow.id = [(samplePrintId 1).val] := by decide +kernel
  have hshares : sampleMachine.store.db.shares.rows.map ShareRow.printId = [(samplePrintId 1).val] := by decide +kernel
  exact ⟨hprints, hshares, prints_read_back Bcrypt.reference_documented rfl rfl sampleMachine_run⟩

end PrintStore
end FipsDropbox.Storage
