import FipsDropbox.Crypto.Cng
import FipsDropbox.Lib.JsonMap
import FipsDropbox.Lib.JsonText
import FipsDropbox.Lib.Rfc3339

/-!
# Audit events and their JSON

`SerdeJson` is `serde_json` on the derived impls of `Event`, a parameter with the
documented behaviour `SerdeJson.Documented`. `SerdeJson.reference` is a narrower codec
of that kind, for the float-free events: derived field order, RFC 3339 timestamps,
free white space and member order when reading, unknown members ignored.
-/
namespace FipsDropbox.Audit
open Utf8

inductive Outcome where
  | success
  | failure
  | denied
  deriving DecidableEq

structure Actor where
  userId : Option Text
  ip : Text
  ua : Text

structure Event where
  ts : OffsetDateTime
  event : Text
  actor : Actor
  target : JsonValue
  outcome : Outcome
  «meta» : JsonValue
  prevHash : Text
  hash : Text

/-- The event under given chain fields. -/
def Event.chained (e : Event) (prevHash hash : Text) : Event := { e with prevHash, hash }

@[simp] theorem Event.chained_prevHash (e : Event) (p h : Text) : (e.chained p h).prevHash = p := rfl
@[simp] theorem Event.chained_hash (e : Event) (p h : Text) : (e.chained p h).hash = h := rfl
@[simp] theorem Event.chained_chained (e : Event) (p h p' h' : Text) :
    (e.chained p h).chained p' h' = e.chained p' h' := rfl

theorem Event.chained_self (e : Event) : e.chained e.prevHash e.hash = e := rfl

/-- Events whose JSON is exact: UTC, a year of four digits, no floats, and nesting
that the reader follows inside the event object. -/
structure Event.Plain (e : Event) : Prop where
  utc : e.ts.offset = 0
  year : -62167219200 * nanosPerSecond ≤ e.ts.nanos ∧ e.ts.nanos < endLocal
  target : e.target.tree.floatFree = true ∧ e.target.tree.depth ≤ 126
  «meta» : e.meta.tree.floatFree = true ∧ e.meta.tree.depth ≤ 126

theorem Event.Plain.chained {e : Event} (h : e.Plain) (p h' : Text) : (e.chained p h').Plain :=
  ⟨h.utc, h.year, h.target, h.meta⟩

/-- `serde_json::to_string` and `serde_json::from_str::<Event>`; `to_vec` gives the
bytes of `to_string`. -/
structure SerdeJson where
  toString : Event → Option Text
  fromStr : Text → Option Event

namespace SerdeJson

def toVec (serde : SerdeJson) (e : Event) : Option Bytes := (serde.toString e).map encode

structure Documented (serde : SerdeJson) : Prop where
  writes : ∀ e, e.Plain → (serde.toString e).isSome = true
  reads : ∀ e t, e.Plain → serde.toString e = some t → serde.fromStr t = some e
  object : ∀ e t, serde.toString e = some t → ∃ u, t = '{' :: u
  escaped : ∀ e t, serde.toString e = some t → ∀ c ∈ t, 0x20 ≤ c.toNat
  torn : ∀ e t p, e.Plain → serde.toString e = some t → p <+: t → p ≠ t → serde.fromStr p = none
  glued : ∀ e e' t t', e.Plain → serde.toString e = some t → serde.toString e' = some t' →
    serde.fromStr (t ++ t') = none

/-- Different events have different JSON. -/
def Injective (serde : SerdeJson) : Prop :=
  ∀ e e' t, serde.toString e = some t → serde.toString e' = some t → e = e'

/-- A timestamp is read from an RFC 3339 text, so it has one. -/
def ReadsTimes (serde : SerdeJson) : Prop :=
  ∀ t e, serde.fromStr t = some e → (Rfc3339.format e.ts).isSome = true

end SerdeJson

def Outcome.name : Outcome → Text
  | .success => "success".toList
  | .failure => "failure".toList
  | .denied => "denied".toList

def Outcome.ofName (t : Text) : Option Outcome :=
  if t = "success".toList then some .success
  else if t = "failure".toList then some .failure
  else if t = "denied".toList then some .denied
  else none

theorem Outcome.ofName_name (o : Outcome) : Outcome.ofName o.name = some o := by
  cases o <;> rfl

def Actor.toJson (a : Actor) : Json :=
  .object [("user_id".toList, match a.userId with | none => .null | some u => .string u),
    ("ip".toList, .string a.ip), ("ua".toList, .string a.ua)]

def Event.members (e : Event) (ts : Text) : List (Text × Json) :=
  [("ts".toList, .string ts), ("event".toList, .string e.event), ("actor".toList, e.actor.toJson),
    ("target".toList, e.target.tree), ("outcome".toList, .string e.outcome.name),
    ("meta".toList, e.meta.tree), ("prev_hash".toList, .string e.prevHash),
    ("hash".toList, .string e.hash)]

/-- A member that has to be there once. -/
def field (k : String) (ms : List (Text × Json)) : Option Json :=
  match ms.filter (·.1 = k.toList) with
  | [(_, v)] => some v
  | _ => none

/-- An optional member; a missing one is null. -/
def optionalField (k : String) (ms : List (Text × Json)) : Option Json :=
  match ms.filter (·.1 = k.toList) with
  | [] => some .null
  | [(_, v)] => some v
  | _ => none

def asString : Json → Option Text
  | .string s => some s
  | _ => none

def asOptionalString : Json → Option (Option Text)
  | .null => some none
  | .string s => some (some s)
  | _ => none

def Actor.ofJson : Json → Option Actor
  | .object ms => do
      let userId ← (optionalField "user_id" ms).bind asOptionalString
      let ip ← (field "ip" ms).bind asString
      let ua ← (field "ua" ms).bind asString
      some ⟨userId, ip, ua⟩
  | _ => none

def Event.ofJson : Json → Option Event
  | .object ms => do
      let ts ← ((field "ts" ms).bind asString).bind Rfc3339.parse
      let event ← (field "event" ms).bind asString
      let actor ← (field "actor" ms).bind Actor.ofJson
      let target ← field "target" ms
      let outcome ← ((field "outcome" ms).bind asString).bind Outcome.ofName
      let meta_ ← field "meta" ms
      let prevHash ← (field "prev_hash" ms).bind asString
      let hash ← (field "hash" ms).bind asString
      some ⟨ts, event, actor, .collect target, outcome, .collect meta_, prevHash, hash⟩
  | _ => none

theorem Actor.ofJson_toJson (a : Actor) : Actor.ofJson a.toJson = some a := by
  rcases a with ⟨_ | u, ip, ua⟩ <;> rfl

theorem Event.ofJson_members {e : Event} {ts : Text} (h : Rfc3339.parse ts = some e.ts) :
    Event.ofJson (.object (e.members ts)) = some e := by
  have hfields : field "ts" (e.members ts) = some (.string ts) ∧
      field "event" (e.members ts) = some (.string e.event) ∧
      field "actor" (e.members ts) = some e.actor.toJson ∧
      field "target" (e.members ts) = some e.target.tree ∧
      field "outcome" (e.members ts) = some (.string e.outcome.name) ∧
      field "meta" (e.members ts) = some e.meta.tree ∧
      field "prev_hash" (e.members ts) = some (.string e.prevHash) ∧
      field "hash" (e.members ts) = some (.string e.hash) :=
    ⟨rfl, rfl, rfl, rfl, rfl, rfl, rfl, rfl⟩
  obtain ⟨h1, h2, h3, h4, h5, h6, h7, h8⟩ := hfields
  simp only [Event.ofJson, h1, h2, h3, h4, h5, h6, h7, h8, Option.bind_eq_bind, Option.bind_some,
    asString, h, Actor.ofJson_toJson, Outcome.ofName_name, JsonValue.collect_tree]

namespace SerdeJson

/-- Narrower than `serde_json`: floats are neither spelled nor read, a struct is read from
an object only and an outcome from a string only, and an unknown member is ignored only
where it is itself in this format, so no float, no overflowing number and no deeper. -/
def reference : SerdeJson where
  toString e :=
    if (Json.object (e.members [])).floatFree then
      (Rfc3339.format e.ts).map fun ts => Json.print (fun _ => []) (.object (e.members ts))
    else none
  fromStr t := (Json.parse (fun _ => none) 128 t).bind Event.ofJson

theorem reference_toString {e : Event} {t : Text} (h : reference.toString e = some t) :
    ∃ ts, Rfc3339.format e.ts = some ts ∧ (Json.object (e.members ts)).floatFree = true ∧
      t = Json.print (fun _ => []) (.object (e.members ts)) := by
  simp only [reference] at h
  split_ifs at h with hf
  obtain ⟨ts, hts, rfl⟩ := Option.map_eq_some_iff.mp h
  exact ⟨ts, hts, hf, rfl⟩

/-- The JSON of an event is one level deeper than its members. -/
theorem members_depth (e : Event) (ts : Text) :
    (Json.object (e.members ts)).depth = max 1 (max e.target.tree.depth e.meta.tree.depth) + 1 := by
  rcases e with ⟨ts', event, ⟨_ | u, ip, ua⟩, target, outcome, meta_, prevHash, hash⟩ <;>
    simp [Event.members, Actor.toJson, Json.depth, Json.membersDepth]

theorem members_floatFree (e : Event) (ts : Text) :
    (Json.object (e.members ts)).floatFree = (e.target.tree.floatFree && e.meta.tree.floatFree) := by
  rcases e with ⟨ts', event, ⟨_ | u, ip, ua⟩, target, outcome, meta_, prevHash, hash⟩ <;>
    simp [Event.members, Actor.toJson, Json.floatFree, Json.membersFloatFree]

/-- Reading back with enough levels, whatever the limit of the reader proper. -/
theorem reference_reads {e : Event} {t : Text} (h : reference.toString e = some t) {d : ℕ}
    (hd : max 1 (max e.target.tree.depth e.meta.tree.depth) + 1 < d) :
    (Json.parse (fun _ => none) d t).bind Event.ofJson = some e := by
  obtain ⟨ts, hts, hf, rfl⟩ := reference_toString h
  rw [Json.parse_print _ _ hf (by rw [members_depth]; exact hd), Option.bind_some,
    Event.ofJson_members (Rfc3339.parse_format hts)]

theorem reference_injective : reference.Injective := by
  intro e e' t h h'
  have hread := reference_reads h (d := max (max 1 (max e.target.tree.depth e.meta.tree.depth) + 1)
    (max 1 (max e'.target.tree.depth e'.meta.tree.depth) + 1) + 1) (by omega)
  rw [reference_reads h' (by omega)] at hread
  exact (Option.some.inj hread).symm

theorem reference_readsTimes : reference.ReadsTimes := by
  intro t e h
  obtain ⟨j, -, hj⟩ := Option.bind_eq_some_iff.mp h
  cases j with
  | object ms =>
      simp only [Event.ofJson, Option.bind_eq_bind, Option.bind_eq_some_iff] at hj
      obtain ⟨ts, ⟨_, -, hts⟩, _, -, _, -, _, -, _, -, _, -, _, -, _, -, he⟩ := hj
      cases he
      exact Rfc3339.format_parsed hts
  | null | bool | number | string | array => cases hj

theorem reference_documented : reference.Documented where
  writes e h := by
    have hts := Rfc3339.format_utc h.utc h.year
    obtain ⟨ts, hts⟩ := Option.isSome_iff_exists.mp hts
    simp only [reference, members_floatFree, h.target.1, h.meta.1, Bool.and_self, if_true, hts,
      Option.map_some, Option.isSome_some]
  reads e t h ht := by
    have htarget := h.target.2
    have hmeta := h.meta.2
    exact reference_reads ht (by omega)
  object e t h := by
    obtain ⟨ts, -, -, rfl⟩ := reference_toString h
    exact Json.print_object _ _
  escaped e t h := by
    obtain ⟨ts, -, hf, rfl⟩ := reference_toString h
    exact Json.print_visible _ _ hf
  torn e t p h ht hp hne := by
    obtain ⟨ts, -, hf, rfl⟩ := reference_toString ht
    have htarget := h.target.2
    have hmeta := h.meta.2
    have hdepth : (Json.object (e.members ts)).depth < 128 := by
      rw [members_depth]
      omega
    simp only [reference, Json.parse_torn _ hf hdepth hp hne, Option.bind_none]
  glued e e' t t' h ht ht' := by
    obtain ⟨ts, -, hf, rfl⟩ := reference_toString ht
    obtain ⟨ts', -, -, rfl⟩ := reference_toString ht'
    obtain ⟨u, hu⟩ := Json.print_object (fun _ => []) (e'.members ts')
    have htarget := h.target.2
    have hmeta := h.meta.2
    have hdepth : (Json.object (e.members ts)).depth < 128 := by
      rw [members_depth]
      omega
    rw [hu]
    simp only [reference, Json.parse_trailing _ _ hf hdepth (c := '{') (by decide) (by decide),
      Option.bind_none]

end SerdeJson

/-- The event of the source's own tests. -/
def sampleEvent (name : String) : Event where
  ts := .unixEpoch
  event := name.toList
  actor := ⟨none, "127.0.0.1".toList, "test".toList⟩
  target := .object []
  outcome := .success
  «meta» := .object []
  prevHash := []
  hash := []

theorem sampleEvent_plain (name : String) : (sampleEvent name).Plain := by
  have hyear : -62167219200 * nanosPerSecond ≤ OffsetDateTime.unixEpoch.nanos ∧
      OffsetDateTime.unixEpoch.nanos < endLocal := by decide
  have hobject : (JsonValue.object []).tree.floatFree = true ∧ (JsonValue.object []).tree.depth ≤ 126 := by
    decide
  exact ⟨rfl, hyear, hobject, hobject⟩

end FipsDropbox.Audit
