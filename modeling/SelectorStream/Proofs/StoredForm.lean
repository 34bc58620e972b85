/-
# `SelectorStream.Proofs.StoredForm` — what was stored is read back

A value is stored as the compact text of its JSON.  Reading it back takes two
steps, and each has its inverse: the text is read as JSON again
(`Json.readWithin?_text`), and the JSON as the value (`Event.ofJson?_toJson`
and its like).  Nesting is never in the way: an event with a declared namespace
is three levels deep, a list of events one more, and no value is deeper.

The main statement is `stored_form_round_trips`.
-/
import SelectorStream.Event.Stored
import SelectorStream.Proofs.JsonReading

namespace SelectorStream

/-! ## Fields of an object -/

namespace Json

@[simp] theorem field?_nil (key : String) : (Json.obj []).field? key = none := rfl

@[simp] theorem field?_cons (key : String) (first : String × Json) (rest : List (String × Json)) :
    (Json.obj (first :: rest)).field? key =
      ((Json.obj rest).field? key).or (if first.1 = key then some first.2 else none) := by
  simp only [field?, List.findRev?]
  cases hRest : rest.findRev? fun field => field.1 == key with
  | some field => rfl
  | none =>
      by_cases hKey : first.1 = key
      · simp [hKey]
      · simp [hKey]

theorem int32?_toInt (i : Int32) : (Json.int i.toInt).int32? = some i := by
  rw [int32?, if_pos ⟨Int32.le_toInt i, Int32.toInt_le i⟩, Int32.ofInt_toInt]

end Json

/-! ## JSON and back -/

theorem Namespace.ofJson?_toJson : ∀ ns : Namespace, ofJson? ns.toJson = some ns
  | .implied | .empty | .any => rfl
  | .declared _ => rfl

theorem Kind.ofJson?_toJson (kind : Kind) : ofJson? kind.toJson = some kind :=
  ofTag?_tag kind

/-- A qualified name is read from its two fields, and fields behind them that
have other keys do not matter. -/
theorem QualifiedName.ofFields?_obj (q : QualifiedName) {others : List (String × Json)}
    (hPrefix : (Json.obj others).field? "prefix" = none)
    (hName : (Json.obj others).field? "name" = none) :
    ofFields? (.obj (("prefix", q.ns.toJson) :: ("name", .str q.name) :: others)) = some q := by
  simp [ofFields?, hPrefix, hName, Namespace.ofJson?_toJson, Json.string?]

theorem Nth.ofFields?_obj (x : Nth) :
    ofFields? (.obj [("a", .int x.step.toInt), ("b", .int x.offset.toInt)]) = some x := by
  simp [ofFields?, Json.int32?_toInt]

theorem Payload.ofJson?_toJson? (p : Payload) : ofJson? p.shape p.toJson? = some p := by
  cases p with
  | bare => rfl
  | text value => rfl
  | name q =>
      have hName := q.ofFields?_obj (Json.field?_nil _) (Json.field?_nil _)
      simp only [ofJson?, shape, toJson?, hName, Option.map_some]
  | comparison q operand =>
      have hName : QualifiedName.ofFields? (.obj
          [("prefix", q.ns.toJson), ("name", .str q.name), ("value", .str operand)]) = some q :=
        q.ofFields?_obj (by simp) (by simp)
      simp [ofJson?, shape, toJson?, hName, Json.string?]
  | coefficients x => simp only [ofJson?, shape, toJson?, Nth.ofFields?_obj, Option.map_some]

namespace Event

theorem ofJson?_toJson (e : Event) : ofJson? e.toJson = some e := by
  have hPayload := Payload.ofJson?_toJson? e.payload
  rw [shape_payload] at hPayload
  cases hStored : e.payload.toJson? with
  | none =>
      rw [hStored] at hPayload
      simp [ofJson?, toJson, hStored, Json.tagged?, Kind.ofTag?_tag, hPayload, ofPayload?_payload]
  | some stored =>
      rw [hStored] at hPayload
      simp [ofJson?, toJson, hStored, Json.tagged?, Kind.ofTag?_tag, hPayload, ofPayload?_payload]

theorem listOfJson?_listToJson (events : List Event) :
    listOfJson? (listToJson events) = some events := by
  show (events.map toJson).mapM ofJson? = some events
  induction events with
  | nil => rfl
  | cons e rest ih => simp [ofJson?_toJson, ih]

end Event

/-! ## Text and back -/

def stored {A : Type} (toJson : A → Json) (value : A) : String :=
  (toJson value).text

/-- The value that a text keeps.  A text that is nested too deep is not read. -/
def restored? {A : Type} (ofJson? : Json → Option A) (text : String) : Option A :=
  (Json.readWithin? 127 text).bind ofJson?

theorem restored?_stored {A : Type} {toJson : A → Json} {ofJson? : Json → Option A} {value : A}
    (hExact : (toJson value).Exact) (hLevels : (toJson value).levels ≤ 127)
    (h : ofJson? (toJson value) = some value) :
    restored? ofJson? (stored toJson value) = some value := by
  rw [restored?, stored, Json.readWithin?_text hExact hLevels, Option.bind_some, h]

/-! ### Exact numbers, and few levels -/

theorem Namespace.exact_toJson : ∀ ns : Namespace, ns.toJson.Exact
  | .implied | .empty | .any => trivial
  | .declared _ => ⟨trivial, trivial⟩

theorem Namespace.levels_toJson_le : ∀ ns : Namespace, ns.toJson.levels ≤ 1
  | .implied | .empty | .any => Nat.zero_le 1
  | .declared _ => Nat.le_refl 1

theorem Payload.exact_of_toJson? : ∀ (p : Payload) {stored : Json},
    p.toJson? = some stored → stored.Exact
  | .text _, _, rfl => trivial
  | .name q, _, rfl => ⟨q.ns.exact_toJson, trivial, trivial⟩
  | .comparison q _, _, rfl => ⟨q.ns.exact_toJson, trivial, trivial, trivial⟩
  | .coefficients _, _, rfl => ⟨trivial, trivial, trivial⟩

theorem Payload.levels_of_toJson? : ∀ (p : Payload) {stored : Json},
    p.toJson? = some stored → stored.levels ≤ 2
  | .text _, _, rfl => Nat.zero_le 2
  | .name q, _, rfl => by
      have := q.ns.levels_toJson_le
      simp only [Json.levels, Json.levelsOfFields]
      omega
  | .comparison q _, _, rfl => by
      have := q.ns.levels_toJson_le
      simp only [Json.levels, Json.levelsOfFields]
      omega
  | .coefficients _, _, rfl => Nat.le_succ 1

namespace Event

theorem exact_toJson (e : Event) : e.toJson.Exact := by
  rw [toJson]
  cases hStored : e.payload.toJson? with
  | none => trivial
  | some stored => exact ⟨e.payload.exact_of_toJson? hStored, trivial⟩

theorem levels_toJson_le (e : Event) : e.toJson.levels ≤ 3 := by
  rw [toJson]
  cases hStored : e.payload.toJson? with
  | none => exact Nat.zero_le 3
  | some stored =>
      have := e.payload.levels_of_toJson? hStored
      simp only [Json.levels, Json.levelsOfFields]
      omega

theorem exact_listToJson (events : List Event) : (listToJson events).Exact := by
  show Json.ExactItems (events.map toJson)
  induction events with
  | nil => trivial
  | cons e rest ih => exact ⟨e.exact_toJson, ih⟩

theorem levels_listToJson_le (events : List Event) : (listToJson events).levels ≤ 4 := by
  show Json.levelsOfItems (events.map toJson) + 1 ≤ 4
  induction events with
  | nil => exact Nat.le_add_left 1 3
  | cons e rest ih =>
      have := e.levels_toJson_le
      simp only [List.map_cons, Json.levelsOfItems]
      omega

end Event

/-- What was stored is read back as it was.

This holds of every stream of events, whatever the names, values and
coefficients in it, and of single kinds and namespaces.  So no two streams share
a text, and a namespace declared under `""` or `"*"` does not come back as the
one that is written like it. -/
theorem stored_form_round_trips :
    (∀ events : List Event,
      restored? Event.listOfJson? (stored Event.listToJson events) = some events) ∧
    (∀ e : Event, restored? Event.ofJson? (stored Event.toJson e) = some e) ∧
    (∀ kind : Kind, restored? Kind.ofJson? (stored Kind.toJson kind) = some kind) ∧
    (∀ ns : Namespace, restored? Namespace.ofJson? (stored Namespace.toJson ns) = some ns) ∧
    (∀ events others : List Event,
      stored Event.listToJson events = stored Event.listToJson others → events = others) ∧
    restored? Namespace.ofJson? (stored Namespace.toJson (.declared "")) ≠
      restored? Namespace.ofJson? (stored Namespace.toJson .empty) ∧
    restored? Namespace.ofJson? (stored Namespace.toJson (.declared "*")) ≠
      restored? Namespace.ofJson? (stored Namespace.toJson .any) := by
  have hEvents : ∀ events : List Event,
      restored? Event.listOfJson? (stored Event.listToJson events) = some events := fun events =>
    restored?_stored (Event.exact_listToJson events)
      (Nat.le_trans (Event.levels_listToJson_le events) (by decide))
      (Event.listOfJson?_listToJson events)
  have hNamespace : ∀ ns : Namespace,
      restored? Namespace.ofJson? (stored Namespace.toJson ns) = some ns := fun ns =>
    restored?_stored ns.exact_toJson (Nat.le_trans ns.levels_toJson_le (by decide))
      ns.ofJson?_toJson
  refine ⟨hEvents, fun e => ?_, fun kind => ?_, hNamespace, fun events others h => ?_, ?_, ?_⟩
  · exact restored?_stored e.exact_toJson (Nat.le_trans e.levels_toJson_le (by decide))
      e.ofJson?_toJson
  · exact restored?_stored trivial (Nat.zero_le _) kind.ofJson?_toJson
  · have hOther := hEvents others
    rw [← h, hEvents events] at hOther
    exact Option.some.inj hOther
  · rw [hNamespace, hNamespace]
    decide
  · rw [hNamespace, hNamespace]
    decide

/-- A tag and its payload, and inside the payload the tag of a namespace. -/
example : stored Event.toJson (.head (.element ⟨.declared "svg", "a\"b"⟩)) =
    "\x7b\"Type\":\x7b\"prefix\":\x7b\"Named\":\"svg\"\x7d,\"name\":\"a\\\"b\"\x7d\x7d" := by
  decide

end SelectorStream
