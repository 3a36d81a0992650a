import HookRelay.System

/-!
# Updating an endpoint

`create_endpoint` and `update_endpoint`, one request after the other. A body sets attributes of an `Endpoint`
object, and the flush writes them as a row. That an endpoint has a url, an event type and a secret is demanded
by the schema of the one request, and by the columns: the schema of the other lets `null` through.
-/

namespace HookRelay

/-- What a `text` column takes: it has no place for U+0000. A url never contains it. -/
def textFits (s : String) : Bool := s.toList.all (·.toNat ≠ 0)

def Endpoint.storable (p : Endpoint) : Bool :=
  textFits p.url && p.description.all textFits && p.eventTypes.all textFits && textFits p.secret

/-- The attributes of an `Endpoint` object. Until the flush any of them may be `None`. -/
@[ext] structure EndpointObject where
  id : UUID
  url : Option String
  description : Option String
  eventTypes : Option (List String)
  secret : Option String
  enabled : Option Bool

/-- A field that is set in a body, with its value. -/
inductive Assignment where
  | url (value : Option String)
  | description (value : Option String)
  | eventTypes (value : Option (List String))
  | secret (value : Option String)
  | enabled (value : Option Bool)

/-- The object of a row. -/
def Endpoint.object (p : Endpoint) : EndpointObject where
  id := p.id
  url := p.url
  description := p.description
  eventTypes := p.eventTypes
  secret := p.secret
  enabled := p.enabled

namespace EndpointObject

def setattr (o : EndpointObject) : Assignment → EndpointObject
  | .url value => { o with url := value }
  | .description value => { o with description := value }
  | .eventTypes value => { o with eventTypes := value }
  | .secret value => { o with secret := value }
  | .enabled value => { o with enabled := value }

/-- The row that the flush writes. All columns but `description` are NOT NULL. -/
def flush (o : EndpointObject) : Option Endpoint := do
  let url ← o.url
  let eventTypes ← o.eventTypes
  let secret ← o.secret
  let enabled ← o.enabled
  let p : Endpoint := { id := o.id, url, description := o.description, eventTypes, secret, enabled }
  if p.storable then some p else none

end EndpointObject

/-- `model_dump(mode="json", exclude_unset=True)`. -/
def EndpointUpdate.updates (body : EndpointUpdate) : List Assignment :=
  (body.url.map Assignment.url).toList ++ (body.description.map Assignment.description).toList ++
    (body.eventTypes.map Assignment.eventTypes).toList ++ (body.secret.map Assignment.secret).toList ++
    (body.enabled.map Assignment.enabled).toList

/-- A request returns the row or answers 404, or it raises and its transaction is rolled back. -/
inductive Answer where
  | endpoint (p : Endpoint)
  | notFound
  | raised

/-- The request, and the identifier that the column default gives or the path has. -/
inductive EndpointRequest where
  | create (id : UUID) (body : EndpointCreate)
  | update (id : UUID) (body : EndpointUpdate)

namespace EndpointRequest

def createEndpoint (db : Database) (id : UUID) (body : EndpointCreate) : Database × Answer :=
  match (body.endpoint id).object.flush with
  | none => (db, .raised)
  | some p =>
    match db.insertEndpoint p with
    | none => (db, .raised)
    | some db' => (db', .endpoint p)

def updateEndpoint (db : Database) (id : UUID) (body : EndpointUpdate) : Database × Answer :=
  match db.getEndpoint id with
  | none => (db, .notFound)
  | some p =>
    match (body.updates.foldl .setattr p.object).flush with
    | none => (db, .raised)
    | some q => (db.updateEndpoint id fun _ => q, .endpoint q)

def answer (db : Database) : EndpointRequest → Database × Answer
  | create id body => createEndpoint db id body
  | update id body => updateEndpoint db id body

def step (db : Database) (request : EndpointRequest) : Option Database := some (request.answer db).1

end EndpointRequest

/-! ## What is expected of an update -/

/-- What `EndpointCreate` demands of an endpoint. Its url is not null, and neither is another column that is
NOT NULL, since the type of the row says so. -/
structure Endpoint.Valid (p : Endpoint) : Prop where
  eventTypes : p.eventTypes ≠ []
  secret : p.secret ≠ ""

/-- The fields that are set in the body, and no others, have changed, to the values they are set to. -/
structure EndpointUpdate.Changes (body : EndpointUpdate) (p q : Endpoint) : Prop where
  id : q.id = p.id
  url : body.url.getD (some p.url) = some q.url
  description : body.description.getD p.description = q.description
  eventTypes : body.eventTypes.getD (some p.eventTypes) = some q.eventTypes
  secret : body.secret.getD (some p.secret) = some q.secret
  enabled : body.enabled.getD (some p.enabled) = some q.enabled

/-- `update_endpoint` returns normally, changes in the row exactly what the body sets and nothing else, and
leaves a valid endpoint. -/
def EndpointUpdate.Succeeds (body : EndpointUpdate) (db : Database) (p : Endpoint) : Prop :=
  ∃ db' q, EndpointRequest.updateEndpoint db p.id body = (db', .endpoint q) ∧ body.Changes p q ∧ q.Valid ∧
    db'.toTables = { db.toTables with endpoints := db.endpoints.map fun x => if x.id = p.id then q else x }

/-- The texts that the body sets fit their columns. -/
def EndpointUpdate.storable (body : EndpointUpdate) : Bool :=
  body.url.all (·.all textFits) && body.description.all (·.all textFits) &&
    body.eventTypes.all (·.all (·.all textFits)) && body.secret.all (·.all textFits)

/-- The body sets no column to `null` that is NOT NULL, and no text that does not fit. -/
structure EndpointUpdate.Settable (body : EndpointUpdate) : Prop where
  url : body.url ≠ some none
  eventTypes : body.eventTypes ≠ some none
  secret : body.secret ≠ some none
  enabled : body.enabled ≠ some none
  storable : body.storable = true

/-! ## Setting attributes -/

section

variable {body : EndpointUpdate} {o : EndpointObject} {p q : Endpoint}

/-- The body's fields in place of the object's. -/
def EndpointUpdate.patch (body : EndpointUpdate) (o : EndpointObject) : EndpointObject where
  id := o.id
  url := body.url.getD o.url
  description := body.description.getD o.description
  eventTypes := body.eventTypes.getD o.eventTypes
  secret := body.secret.getD o.secret
  enabled := body.enabled.getD o.enabled

theorem foldl_updates : body.updates.foldl .setattr o = body.patch o := by
  obtain ⟨url, description, eventTypes, secret, enabled, _, _⟩ := body
  cases url <;> cases description <;> cases eventTypes <;> cases secret <;> cases enabled <;> rfl

theorem EndpointObject.flush_eq_some : o.flush = some q ↔ o = q.object ∧ q.storable = true := by
  simp only [flush, Option.bind_eq_bind, Option.bind_eq_some_iff, Option.ite_none_right_eq_some, Option.some.injEq]
  constructor
  · rintro ⟨url, hu, eventTypes, he, secret, hs, enabled, hn, fits, rfl⟩
    exact ⟨EndpointObject.ext rfl hu rfl he hs hn, fits⟩
  · rintro ⟨rfl, fits⟩
    exact ⟨q.url, rfl, q.eventTypes, rfl, q.secret, rfl, q.enabled, rfl, fits, rfl⟩

theorem EndpointUpdate.patch_iff : body.patch p.object = q.object ↔ body.Changes p q := by
  constructor
  · intro same
    exact ⟨(congrArg (·.id) same).symm, congrArg (·.url) same, congrArg (·.description) same,
      congrArg (·.eventTypes) same, congrArg (·.secret) same, congrArg (·.enabled) same⟩
  · intro h
    exact EndpointObject.ext h.id.symm h.url h.description h.eventTypes h.secret h.enabled

theorem Endpoint.object_injective : Function.Injective Endpoint.object := fun p q h => by
  cases p
  cases q
  simp only [Endpoint.object, EndpointObject.mk.injEq, Option.some.injEq] at h
  obtain ⟨rfl, rfl, rfl, rfl, rfl, rfl⟩ := h
  rfl

/-- One field of a row that is patched: it has a value that fits, unless the body sets it to `null` or to a text
that does not. -/
theorem field_iff {α : Type} {present : Option (Option α)} {old : α} (fits : α → Bool)
    (before : fits old = true) :
    (∃ new, present.getD (some old) = some new ∧ fits new = true) ↔
      present ≠ some none ∧ present.all (·.all fits) = true := by
  rcases present with _ | _ | value <;> simp [before]

theorem nullable_iff {present : Option (Option String)} {old : Option String} (before : old.all textFits = true) :
    (present.getD old).all textFits = true ↔ present.all (·.all textFits) = true := by
  cases present <;> simp [before]

theorem Endpoint.storable_iff : p.storable = true ↔ textFits p.url = true ∧ p.description.all textFits = true ∧
    p.eventTypes.all textFits = true ∧ textFits p.secret = true := by
  simp only [Endpoint.storable, Bool.and_eq_true, and_assoc]

/-- The columns take a patched row exactly when the body is settable. -/
theorem EndpointUpdate.settable_iff (stored : p.storable = true) :
    body.Settable ↔ ∃ q, body.Changes p q ∧ q.storable = true := by
  obtain ⟨url, description, eventTypes, secret⟩ := Endpoint.storable_iff.1 stored
  constructor
  · intro h
    have texts := h.storable
    simp only [EndpointUpdate.storable, Bool.and_eq_true] at texts
    obtain ⟨⟨⟨urlFits, descriptionFits⟩, eventTypesFit⟩, secretFits⟩ := texts
    obtain ⟨newUrl, urlSet, urlOk⟩ := (field_iff textFits url).2 ⟨h.url, urlFits⟩
    obtain ⟨newTypes, typesSet, typesOk⟩ := (field_iff (·.all textFits) eventTypes).2
      ⟨h.eventTypes, eventTypesFit⟩
    obtain ⟨newSecret, secretSet, secretOk⟩ := (field_iff textFits secret).2 ⟨h.secret, secretFits⟩
    have any : (fun _ => true) p.enabled = true := rfl
    obtain ⟨newEnabled, enabledSet, -⟩ := (field_iff (fun _ => true) any).2
      ⟨h.enabled, by cases body.enabled <;> simp⟩
    refine ⟨⟨p.id, newUrl, body.description.getD p.description, newTypes, newSecret, newEnabled⟩,
      ⟨rfl, urlSet, rfl, typesSet, secretSet, enabledSet⟩, Endpoint.storable_iff.2 ?_⟩
    exact ⟨urlOk, (nullable_iff description).2 descriptionFits, typesOk, secretOk⟩
  · rintro ⟨q, changes, fits⟩
    obtain ⟨urlOk, descriptionOk, typesOk, secretOk⟩ := Endpoint.storable_iff.1 fits
    obtain ⟨urlSet, urlFits⟩ := (field_iff textFits url).1 ⟨_, changes.url, urlOk⟩
    obtain ⟨typesSet, typesFit⟩ := (field_iff (·.all textFits) eventTypes).1
      ⟨_, changes.eventTypes, typesOk⟩
    obtain ⟨secretSet, secretFits⟩ := (field_iff textFits secret).1 ⟨_, changes.secret, secretOk⟩
    obtain ⟨enabledSet, -⟩ := (field_iff (fun _ => true) rfl).1 ⟨_, changes.enabled, rfl⟩
    rw [← changes.description, nullable_iff description] at descriptionOk
    refine ⟨urlSet, typesSet, secretSet, enabledSet, ?_⟩
    simp only [EndpointUpdate.storable, Bool.and_eq_true]
    exact ⟨⟨⟨urlFits, descriptionOk⟩, typesFit⟩, secretFits⟩

/-- Neither schema accepts an empty list of event types or an empty secret. -/
theorem EndpointUpdate.Changes.valid (changes : body.Changes p q) (valid : p.Valid) : q.Valid := by
  constructor
  · intro empty
    have same := changes.eventTypes
    rw [empty] at same
    cases present : body.eventTypes with
    | none =>
      rw [present] at same
      exact valid.eventTypes (Option.some.inj same)
    | some value =>
      rw [present] at same
      exact body.eventTypes_nonempty (present.trans (congrArg some same))
  · intro empty
    have same := changes.secret
    rw [empty] at same
    cases present : body.secret with
    | none =>
      rw [present] at same
      exact valid.secret (Option.some.inj same)
    | some value =>
      rw [present] at same
      exact body.secret_nonempty (present.trans (congrArg some same))

/-- What the model of the whole system takes an update for. -/
theorem EndpointUpdate.Changes.apply (changes : body.Changes p q) : body.apply p = some q := by
  rw [EndpointUpdate.apply, changes.url, changes.description, changes.eventTypes, changes.secret, changes.enabled]
  obtain ⟨id, _, _, _, _, _⟩ := q
  obtain rfl : id = p.id := changes.id
  rfl

end

/-- The `UPDATE` of one row. -/
theorem Database.updateEndpoint_const (db : Database) {p q : Endpoint} (same : q.id = p.id) :
    (db.updateEndpoint p.id fun _ => q).toTables =
      { db.toTables with endpoints := db.endpoints.map fun x => if x.id = p.id then q else x } := by
  have rows : (db.endpoints.map fun x => if x.id = p.id then { q with id := x.id } else x) =
      db.endpoints.map fun x => if x.id = p.id then q else x := by
    refine List.map_congr_left fun x _ => ?_
    split
    · rename_i here
      rw [here, ← same]
    · rfl
  exact congrArg (fun endpoints => { db.toTables with endpoints }) rows

/-! ## The requests -/

namespace EndpointRequest

variable {db db' : Database} {id : UUID} {p q : Endpoint}

theorem createEndpoint_cases (db : Database) (id : UUID) (body : EndpointCreate) :
    createEndpoint db id body = (db, .raised) ∨
      ∃ db', (body.endpoint id).storable = true ∧ db.insertEndpoint (body.endpoint id) = some db' ∧
        createEndpoint db id body = (db', .endpoint (body.endpoint id)) := by
  cases flushed : (body.endpoint id).object.flush with
  | none => exact .inl (by rw [createEndpoint, flushed])
  | some p =>
    obtain ⟨same, fits⟩ := EndpointObject.flush_eq_some.1 flushed
    obtain rfl := Endpoint.object_injective same
    cases inserted : db.insertEndpoint (body.endpoint id) with
    | none => exact .inl (by rw [createEndpoint, flushed]; simp only [inserted])
    | some db' => exact .inr ⟨db', fits, rfl, by rw [createEndpoint, flushed]; simp only [inserted]⟩

/-- An update answers with the patched row, if the columns take it. -/
theorem updateEndpoint_eq_iff {body : EndpointUpdate} (found : db.getEndpoint id = some p) :
    updateEndpoint db id body = (db', .endpoint q) ↔
      body.Changes p q ∧ q.storable = true ∧ db' = db.updateEndpoint id fun _ => q := by
  rw [updateEndpoint, found]
  simp only [foldl_updates]
  rw [← EndpointUpdate.patch_iff, ← and_assoc, ← EndpointObject.flush_eq_some]
  cases (body.patch p.object).flush with
  | none => simp
  | some q' =>
    simp only [Prod.mk.injEq, Answer.endpoint.injEq, Option.some.injEq]
    constructor
    · rintro ⟨rfl, rfl⟩
      exact ⟨rfl, rfl⟩
    · rintro ⟨rfl, rfl⟩
      exact ⟨rfl, rfl⟩

theorem updateEndpoint_cases (db : Database) (id : UUID) (body : EndpointUpdate) :
    (updateEndpoint db id body = (db, .notFound) ∨ updateEndpoint db id body = (db, .raised)) ∨
      ∃ p q, db.getEndpoint id = some p ∧ body.Changes p q ∧ q.storable = true ∧
        updateEndpoint db id body = (db.updateEndpoint id fun _ => q, .endpoint q) := by
  cases found : db.getEndpoint id with
  | none => exact .inl (.inl (by rw [updateEndpoint, found]))
  | some p =>
    cases flushed : (body.updates.foldl .setattr p.object).flush with
    | none => exact .inl (.inr (by rw [updateEndpoint, found]; simp only [flushed]))
    | some q =>
      have returned : updateEndpoint db id body = (db.updateEndpoint id fun _ => q, .endpoint q) := by
        rw [updateEndpoint, found]
        simp only [flushed]
      obtain ⟨changes, fits, -⟩ := (updateEndpoint_eq_iff found).1 returned
      exact .inr ⟨p, q, rfl, changes, fits, returned⟩

/-- A request that fails leaves the tables unchanged. -/
theorem answer_failed {request : EndpointRequest} (failed : ∀ p, (request.answer db).2 ≠ .endpoint p) :
    (request.answer db).1 = db := by
  cases request with
  | create id body =>
    obtain raised | ⟨db', -, -, returned⟩ := createEndpoint_cases db id body
    · exact congrArg Prod.fst raised
    · exact absurd (congrArg Prod.snd returned) (failed _)
  | update id body =>
    obtain (missing | raised) | ⟨p, q, -, -, -, returned⟩ := updateEndpoint_cases db id body
    · exact congrArg Prod.fst missing
    · exact congrArg Prod.fst raised
    · exact absurd (congrArg Prod.snd returned) (failed _)

/-- The rows that the requests have written are valid, and fit their columns. -/
def RowsValid (db : Database) : Prop := ∀ p ∈ db.endpoints, p.Valid ∧ p.storable = true

theorem RowsValid.step (h : RowsValid db) {request : EndpointRequest} (hs : step db request = some db') :
    RowsValid db' := by
  obtain rfl := Option.some.inj hs
  cases request with
  | create id body =>
    obtain raised | ⟨db', fits, inserted, returned⟩ := createEndpoint_cases db id body
    · rw [answer, raised]
      exact h
    · rw [answer, returned]
      rw [Database.insertEndpoint, Database.exec_eq_some] at inserted
      obtain ⟨-, tables⟩ := Option.ite_none_left_eq_some.1 inserted
      obtain tables := Option.some.inj tables
      intro p hp
      rw [← tables] at hp
      obtain old | new := List.mem_append.1 hp
      · exact h p old
      · obtain rfl := List.mem_singleton.1 new
        exact ⟨⟨body.eventTypes_nonempty, body.secret_nonempty⟩, fits⟩
  | update id body =>
    obtain (missing | raised) | ⟨p, q, found, changes, fits, returned⟩ := updateEndpoint_cases db id body
    · rw [answer, missing]
      exact h
    · rw [answer, raised]
      exact h
    · rw [answer, returned]
      intro x hx
      obtain ⟨x₀, hx₀, rfl⟩ := List.mem_map.1 hx
      split
      · have valid := changes.valid (h p (Tables.getEndpoint_some found).1).1
        exact ⟨⟨valid.eventTypes, valid.secret⟩, fits⟩
      · exact h x₀ hx₀

/-- The tables that some sequence of the two requests leads to. -/
abbrev Stored (db : Database) : Prop := Lts.Reachable step Lts.Any .empty db

theorem rowsValid (stored : Stored db) : RowsValid db :=
  stored.invariant (fun _ _ _ h _ hs => h.step hs) fun _ none => by cases none

/-- **When an update succeeds.** After any sequence of requests, the update of an endpoint returns normally, changes
exactly the fields in the body and leaves a valid endpoint, if and only if the body sets no column to `null` that is
NOT NULL and no text that contains U+0000. -/
theorem update_succeeds_iff (stored : Stored db) (here : p ∈ db.endpoints) (body : EndpointUpdate) :
    body.Succeeds db p ↔ body.Settable := by
  obtain ⟨valid, fits⟩ := rowsValid stored p here
  have found := db.valid.getEndpoint_eq here
  rw [EndpointUpdate.settable_iff fits]
  constructor
  · rintro ⟨db', q, returned, -⟩
    obtain ⟨changes, fits, -⟩ := (updateEndpoint_eq_iff found).1 returned
    exact ⟨q, changes, fits⟩
  · rintro ⟨q, changes, fits⟩
    exact ⟨_, q, (updateEndpoint_eq_iff found).2 ⟨changes, fits, rfl⟩, changes, changes.valid valid,
      db.updateEndpoint_const changes.id⟩

/-! ## A `null` for a column that is NOT NULL -/

/-- The tables with the sample endpoint in them. -/
def sampleStored : Database := (answer .empty (.create (.ofNat 1) sampleEndpoint)).1

theorem sampleStored_stored : Stored sampleStored := .next (.refl _) trivial rfl

theorem sampleStored_endpoints : sampleStored.endpoints = [sampleEndpoint.endpoint (.ofNat 1)] := by
  rfl

/-- `{"enabled": false}` sets the one field. -/
theorem update_disables : ({ enabled := some (some false) } : EndpointUpdate).Succeeds sampleStored
    (sampleEndpoint.endpoint (.ofNat 1)) :=
  (update_succeeds_iff sampleStored_stored (sampleStored_endpoints ▸ List.mem_cons_self) _).2
    ⟨nofun, nofun, nofun, nofun, rfl⟩

/-- `{"enabled": null}` is accepted by the schema and refused by the column. -/
theorem update_null_raises :
    ¬ ∀ (db : Database) (p : Endpoint) (body : EndpointUpdate), Stored db → p ∈ db.endpoints →
      body.Succeeds db p := by
  intro claim
  obtain ⟨_, q, -, changes, -⟩ := claim sampleStored _ { enabled := some none } sampleStored_stored
    (sampleStored_endpoints ▸ List.mem_cons_self)
  cases changes.enabled

/-! ## The requests as steps of the system -/

/-- What the requests do to the tables, they do in some run of the whole system. -/
theorem stored_reachable (cfg : Settings) (stored : Stored db) : ∃ s, Reachable cfg s ∧ s.store.db = db := by
  refine stored.invariant (I := fun db => ∃ s, Reachable cfg s ∧ s.store.db = db) ?_ ⟨initial, .refl _, rfl⟩
  rintro _ request db' ⟨s, reach, rfl⟩ - hs
  obtain rfl := Option.some.inj hs
  cases request with
  | create id body =>
    obtain raised | ⟨db', -, inserted, returned⟩ := createEndpoint_cases s.store.db id body
    · exact ⟨s, reach, by rw [answer, raised]⟩
    · have created : s.step cfg (.createEndpoint id body) = some (s.setDb db') := by
        simp only [State.step, State.createEndpoint, inserted, Option.bind_eq_bind, Option.bind_some]
      exact ⟨s.setDb db', reach.next trivial created, by rw [answer, returned]; rfl⟩
  | update id body =>
    obtain (missing | raised) | ⟨p, q, found, changes, -, returned⟩ := updateEndpoint_cases s.store.db id body
    · exact ⟨s, reach, by rw [answer, missing]⟩
    · exact ⟨s, reach, by rw [answer, raised]⟩
    · have updated : s.step cfg (.updateEndpoint id body) =
          some (s.setDb (s.store.db.updateEndpoint id fun _ => q)) := by
        simp only [State.step, State.updateEndpoint, found, changes.apply, Option.bind_eq_bind,
          Option.bind_some]
      exact ⟨_, reach.next trivial updated, by rw [answer, returned]; rfl⟩

end EndpointRequest

end HookRelay
