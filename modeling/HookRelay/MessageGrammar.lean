import HookRelay.PoisonPill

/-!
# What a message of the pending topic must look like

The grammar of the JSON values that the head of `_process_record` is written for, and what it accepts
instead: the truth value of `endpoint_id`, and not its presence, decides between one endpoint and all.
-/

namespace HookRelay

open PyJson (Value Field CodePoint)
open PyText (str)

/-- A string that denotes a UUID. -/
def isUuidText : Value → Prop
  | .str s => (UUID.ofText s).isSome
  | _ => False

/-- An object with a UUID string as `event_id`, none or null or a UUID string as `endpoint_id`, and no
`attempt_number` or one that converts to an integer. -/
def InGrammar : Value → Prop
  | .obj fields =>
    (∃ v, getField fields "event_id" = some v ∧ isUuidText v) ∧
    (∀ v, getField fields "endpoint_id" = some v → v = .null ∨ isUuidText v) ∧
    ∀ v, getField fields "attempt_number" = some v → ∃ n, readInt v = .ok n
  | _ => False

/-- The value has an `endpoint_id` other than null. -/
def NamesEndpoint : Value → Prop
  | .obj fields => ∃ v, getField fields "endpoint_id" = some v ∧ v ≠ .null
  | _ => False

/-- The value is accepted or a poison pill, it is accepted only if it is in the grammar, and one that
names an endpoint is no fan-out. -/
structure ReadByGrammar (v : Value) : Prop where
  total : readMessage v ≠ .error .other
  accepted : ∀ m, readMessage v = .ok m → InGrammar v
  targeted : ∀ m, readMessage v = .ok m → NamesEndpoint v → m.endpointId ≠ none

/-- The value of `endpoint_id` is neither null nor anything `if endpoint_id_raw` takes for true. -/
def blankEndpoint : Option Value → Bool
  | none | some .null => false
  | some v => !truthy v

/-- An object with such an `endpoint_id`, and nothing to make a poison pill of it. -/
def namesBlankEndpoint : Value → Bool
  | .obj fields =>
    blankEndpoint (getField fields "endpoint_id") &&
      (getField fields "event_id").any (fun v => (readUuid v).toBool) &&
      (readInt ((getField fields "attempt_number").getD (.int 0))).toBool
  | _ => false

section

variable {v : Value} {m : RawMessage} {id : UUID} {fields : List Field}

theorem isUuidText_iff : isUuidText v ↔ ∃ id, readUuid v = .ok id := by
  cases v with
  | str s =>
    simp only [isUuidText, readUuid, Option.isSome_iff_exists]
    cases UUID.ofText s <;> simp
  | null | bool | int | float | arr | obj => simp [isUuidText, readUuid]

/-- A message is accepted with what its three fields are read as. -/
theorem readMessage_ok : readMessage v = .ok m ↔ ∃ fields, v = .obj fields ∧
    (∃ w, getField fields "event_id" = some w ∧ readUuid w = .ok m.eventId) ∧
    readInt ((getField fields "attempt_number").getD (.int 0)) = .ok m.attemptNumber ∧
    (if truthy ((getField fields "endpoint_id").getD .null) then
      ∃ id, readUuid ((getField fields "endpoint_id").getD .null) = .ok id ∧ m.endpointId = some id
    else m.endpointId = none) := by
  cases v with
  | obj fields =>
    obtain ⟨eventId, attemptNumber, endpointId⟩ := m
    simp only [readMessage, Value.obj.injEq, exists_eq_left', bind, Except.bind]
    cases getField fields "event_id" with
    | none => simp
    | some w =>
      simp only [Option.some.injEq, exists_eq_left']
      cases readUuid w with
      | error => simp
      | ok id =>
        cases readInt ((getField fields "attempt_number").getD (.int 0)) with
        | error => simp
        | ok n =>
          cases truthy ((getField fields "endpoint_id").getD .null) with
          | false => simp [eq_comm (a := endpointId)]
          | true =>
            cases readUuid ((getField fields "endpoint_id").getD .null) <;>
              simp [Except.map, eq_comm (a := endpointId)]
  | null | bool | int | float | str | arr => simp [readMessage]

theorem toBool_iff {ε α : Type} {x : Except ε α} : x.toBool = true ↔ ∃ a, x = .ok a := by
  cases x <;> simp [Except.toBool]

/-- A blank `endpoint_id` makes a fan-out of a message that names an endpoint. -/
theorem readMessage_blank (h : namesBlankEndpoint v = true) :
    NamesEndpoint v ∧ ∃ m, readMessage v = .ok m ∧ m.endpointId = none := by
  cases v with
  | obj fields =>
    simp only [namesBlankEndpoint, Bool.and_eq_true, Option.any_eq_true, toBool_iff] at h
    obtain ⟨⟨blank, w, event, id, read⟩, n, number⟩ := h
    cases endpoint : getField fields "endpoint_id" with
    | none =>
      rw [endpoint] at blank
      cases blank
    | some raw =>
      have named : raw ≠ .null := by
        rintro rfl
        rw [endpoint] at blank
        cases blank
      have falsy : truthy raw = false := by
        rw [endpoint] at blank
        cases raw <;> simp_all [blankEndpoint]
      refine ⟨⟨raw, endpoint, named⟩, ⟨id, n, none⟩, ?_, rfl⟩
      refine readMessage_ok.2 ⟨fields, rfl, ⟨w, event, read⟩, number, ?_⟩
      rw [endpoint, Option.getD_some, falsy]
      rfl
  | null | bool | int | float | str | arr => cases h

/-- Without one, an `endpoint_id` other than null is a UUID string that is read. -/
theorem endpoint_of_ok (read : readMessage v = .ok m) (plain : namesBlankEndpoint v = false)
    {fields : List Field} (object : v = .obj fields) {raw : Value}
    (endpoint : getField fields "endpoint_id" = some raw) (named : raw ≠ .null) :
    ∃ id, readUuid raw = .ok id ∧ m.endpointId = some id := by
  obtain ⟨fields', object', ⟨w, event, id⟩, number, target⟩ := readMessage_ok.1 read
  subst object
  obtain rfl := Value.obj.inj object'
  rw [endpoint, Option.getD_some] at target
  cases given : truthy raw with
  | true =>
    rw [given] at target
    exact target
  | false =>
    have blank : namesBlankEndpoint (.obj fields) = true := by
      simp only [namesBlankEndpoint, Bool.and_eq_true, Option.any_eq_true, toBool_iff]
      refine ⟨⟨?_, w, event, _, id⟩, _, number⟩
      rw [endpoint]
      cases raw <;> simp_all [blankEndpoint]
    rw [plain] at blank
    cases blank

/-- Every value is read by the grammar but for those of a type that `UUID`, `int` or the subscript takes
badly, and those with a blank `endpoint_id`. -/
theorem read_by_grammar_iff (v : Value) :
    ReadByGrammar v ↔ readable v = true ∧ namesBlankEndpoint v = false := by
  constructor
  · intro h
    constructor
    · rw [← Bool.not_eq_false, ← readMessage_other]
      exact h.total
    · rw [← Bool.not_eq_true]
      intro blank
      obtain ⟨named, m, read, all⟩ := readMessage_blank blank
      exact h.targeted m read named all
  · rintro ⟨typed, plain⟩
    constructor
    case total =>
      rw [Ne, readMessage_other, typed]
      simp
    case accepted =>
      intro m read
      obtain ⟨fields, rfl, ⟨w, event, id⟩, number, -⟩ := readMessage_ok.1 read
      refine ⟨⟨w, event, isUuidText_iff.2 ⟨_, id⟩⟩, fun raw endpoint => ?_, fun n attempt => ?_⟩
      · by_cases named : raw = .null
        · exact .inl named
        · obtain ⟨id, target, -⟩ := endpoint_of_ok read plain rfl endpoint named
          exact .inr (isUuidText_iff.2 ⟨id, target⟩)
      · rw [attempt] at number
        exact ⟨_, number⟩
    case targeted =>
      intro m read named
      obtain ⟨fields, rfl, -⟩ := readMessage_ok.1 read
      obtain ⟨raw, endpoint, named⟩ := named
      obtain ⟨id, -, some_⟩ := endpoint_of_ok read plain rfl endpoint named
      rw [some_]
      simp

end

/-- `{"event_id": "…", "endpoint_id": 0}`, a fan-out. -/
theorem blank_endpoint_fans_out : ¬ ReadByGrammar (.obj
    [(str "event_id", .str (str "00000000-0000-0000-0000-000000000002")), (str "endpoint_id", .int 0)]) := by
  intro h
  have blank : namesBlankEndpoint (.obj [(str "event_id",
      .str (str "00000000-0000-0000-0000-000000000002")), (str "endpoint_id", .int 0)]) = true := by
    decide +kernel
  obtain ⟨named, m, read, all⟩ := readMessage_blank blank
  exact h.targeted m read named all

end HookRelay
