import HookRelay.AuditTrail
import HookRelay.CurrentEndpoints
import HookRelay.Ingestion
import HookRelay.ScheduledRetry

/-!
# What is in a POST

A call works on copies of rows that may have changed or gone since it read them, and a retry reads them again. A
POST never mixes two versions of a row: its URL and its secret are those of one row, which the endpoint had at some
moment of the run while it was enabled, and its type and payload are those of its event.
-/

namespace HookRelay

/-- The endpoint had the row at some moment of the run, and was enabled. -/
def WasEnabled (cfg : Settings) (as : List Action) (q : Endpoint) : Prop :=
  q.enabled = true ∧ ∃ t, Lts.Visits (State.step cfg) initial as t ∧ q ∈ t.store.db.endpoints

/-- A delivery of the event under the number may be made to the row: the event is stored, and the first one goes to
a subscriber. -/
structure Addresses (cfg : Settings) (as : List Action) (s : State) (event : Event) (n : Nat) (q : Endpoint) :
    Prop where
  stored : s.store.db.Stores event
  enabled : WasEnabled cfg as q
  subscribed : n = 0 → event.eventType ∈ q.eventTypes

/-- Every target of the call is addressed. -/
def Call.Addressed (cfg : Settings) (as : List Action) (s : State) (c : Call) : Prop :=
  ∀ d, c = .delivering d → ∀ q ∈ d.endpoint :: d.rest, Addresses cfg as s d.event d.attemptNumber q

/-- The POST is what a delivery of some event to some row sends. -/
def Post.Addressed (cfg : Settings) (as : List Action) (s : State) (p : Post) : Prop :=
  ∃ d : Delivery, ∃ result, p = d.post result ∧ Addresses cfg as s d.event d.attemptNumber d.endpoint

section

variable {cfg : Settings} {as : List Action} {s s' : State} {a : Action}

/-- An event that is stored stays stored. -/
theorem Transition.stores (hs : Transition cfg s a s') {e : Event} (stored : s.store.db.Stores e) :
    s'.store.db.Stores e := by
  by_cases other : a.ingests = false
  · exact hs.stores_mono other stored
  · cases hs with
    | ingestKnown => exact stored
    | ingest _ _ tables =>
      obtain ⟨status, he⟩ := stored
      refine ⟨status, ?_⟩
      rw [State.setDb, tables]
      exact List.mem_append_left _ he
    | _ => exact absurd rfl other

theorem Addresses.mono {event : Event} {n : Nat} {q : Endpoint} (h : Addresses cfg as s event n q)
    (hs : Transition cfg s a s') : Addresses cfg (as ++ [a]) s' event n q where
  stored := hs.stores h.stored
  enabled := ⟨h.enabled.1, h.enabled.2.imp fun _ read => ⟨read.1.snoc a, read.2⟩⟩
  subscribed := h.subscribed

theorem Call.Addressed.mono {c : Call} (h : c.Addressed cfg as s) (hs : Transition cfg s a s') :
    c.Addressed cfg (as ++ [a]) s' := fun d hd q hq => (h d hd q hq).mono hs

theorem deliverNext_addressed {event : Event} {n : Nat} {qs : List Endpoint}
    (h : ∀ q ∈ qs, Addresses cfg as s event n q) : (deliverNext event n qs).Addressed cfg as s := by
  intro d hd
  obtain ⟨rfl, rfl, -, rfl⟩ := deliverNext_eq hd
  exact h

/-- The targets are read from the rows of the moment. -/
theorem resolveTargets_addressed (run : Lts.Run (State.step cfg) Lts.Any initial as s) {m : Message}
    (hm : s.Carries m) : (resolveTargets s.store.db.toTables m).Addressed cfg as s := by
  intro d hd q hq
  obtain ⟨found, number, -, same⟩ := resolveTargets_eq hd
  obtain ⟨read, enabled⟩ := resolved_current s.store.db.valid hd hq
  refine ⟨Tables.stores_of_mem (Tables.getEvent_some found).1, ?_, fun first => ?_⟩
  · exact ⟨enabled, s, run.visits, (Tables.getEndpoint_some read).1⟩
  · -- A message under the first number is a fan-out, whose targets match the event's type.
    rw [same] at hq
    rcases carried_forms ⟨as, run⟩ m hm with ⟨e, rfl⟩ | ⟨k, rfl, later⟩
    · rcases mem_targets.1 hq with ⟨p, target, -⟩ | ⟨-, matching⟩
      · cases target
      · exact (Tables.mem_matching.1 matching).2.2
    · have : d.attemptNumber = k.attemptNumber := number
      omega

/-- A step of a call leaves it with targets that it had, or that it has just read. -/
theorem Moves.addressed {st : Store} {r : Record Message} {c c' : Call} {b : TaskAction}
    (h : Moves cfg s.store r c b st c') (run : Lts.Run (State.step cfg) Lts.Any initial as s)
    (hm : s.Carries r.value) (hc : c.Addressed cfg as s) : c'.Addressed cfg as s := by
  have next : ∀ {d : Delivery}, c = .delivering d → d.next.Addressed cfg as s := fun hd =>
    deliverNext_addressed fun q hq => hc _ hd q (List.mem_cons_of_mem _ hq)
  have goto : ∀ {d : Delivery} {stage : Stage}, c = .delivering d → (d.goto stage).Addressed cfg as s := by
    rintro d stage hd _ ⟨⟩
    exact hc d hd
  cases h with
  | resolve => exact resolveTargets_addressed run hm
  | skip | schedule | notify | notifyFailed => exact next rfl
  | pass | post | dlqConflict | insertDlq | cancel | cancelFailed => exact goto rfl
  | conflict | record =>
    split
    · exact next rfl
    · exact goto rfl

/-- The calls and the POSTs of a run. -/
structure Contents (cfg : Settings) (as : List Action) (s : State) : Prop where
  calls : ∀ t ∈ s.group.tasks, t.data.Addressed cfg as s
  posts : ∀ r post, .posted r post ∈ s.store.history → post.Addressed cfg as s

theorem Contents.step (h : Contents cfg as s) (run : Lts.Run (State.step cfg) Lts.Any initial as s)
    (hs : Transition cfg s a s') : Contents cfg (as ++ [a]) s' := by
  have inv := group_inv ⟨as, run⟩
  constructor
  · intro t' ht
    rcases hs.task_cases inv ht with old | ⟨new, -⟩ | ⟨i, b, t, -, found, -, moved⟩
    · exact (h.calls t' old).mono hs
    · intro d hd
      rw [new] at hd
      cases hd
    · have ht := List.mem_of_getElem? found
      exact (moved.addressed run (.inl ⟨_, inv.tasks t ht, rfl⟩) (h.calls t ht)).mono hs
  · intro r post hx
    rcases hs.made_cases hx with old | ⟨i, d, result, -, hd, rfl⟩
    · obtain ⟨d, result, same, addresses⟩ := h.posts r post old
      exact ⟨d, result, same, addresses.mono hs⟩
    · obtain ⟨t, found, data⟩ := State.delivery_eq_some.1 hd
      exact ⟨d, result, rfl,
        (h.calls t (List.mem_of_getElem? found) d data _ List.mem_cons_self).mono hs⟩

/-- **A POST is made from one version of the endpoint.** In every run, the URL and the secret of a POST are those of
one row that its endpoint had at some moment of the run, enabled, and subscribed to the event's type when the POST
is the first of its pair; its type and payload are those of the event that is stored under its identifier. -/
theorem posts_from_rows (run : Lts.Run (State.step cfg) Lts.Any initial as s) {r : Record Message} {post : Post}
    (made : .posted r post ∈ s.store.history) :
    (∃ q, WasEnabled cfg as q ∧ q.id = post.endpointId ∧ q.url = post.url ∧ q.secret = post.secret ∧
      (post.attemptNumber = 0 → post.eventType ∈ q.eventTypes)) ∧
    ∃ event ∈ s.store.db.events, event.id = post.eventId ∧ event.eventType = post.eventType ∧
      event.payload = post.payload := by
  have contents : Contents cfg as s := Lts.Run.invariant_labels (I := Contents cfg)
    (fun _ _ _ _ before h _ hs => h.step before (step_transition hs)) (.nil _) run
    ⟨fun t ht => (by cases ht), fun r post hx => (by cases hx)⟩
  obtain ⟨d, result, rfl, addresses⟩ := contents.posts r post made
  obtain ⟨status, stored⟩ := addresses.stored
  exact ⟨⟨d.endpoint, addresses.enabled, rfl, rfl, rfl, addresses.subscribed⟩, _, stored, rfl, rfl, rfl⟩

/-- The secret is changed between the read of the endpoint and the POST, which is made with the old one. -/
theorem post_from_old_row : ∃ (as : List Action) (s : State) (r : Record Message) (post : Post),
    .posted r post ∈ s.store.history ∧ (∀ q ∈ s.store.db.endpoints, q.secret ≠ post.secret) ∧
      (∃ q, WasEnabled {} as q ∧ q.id = post.endpointId ∧ q.url = post.url ∧ q.secret = post.secret ∧
        (post.attemptNumber = 0 → post.eventType ∈ q.eventTypes)) ∧
      ∃ event ∈ s.store.db.events, event.id = post.eventId ∧ event.eventType = post.eventType ∧
        event.payload = post.payload := by
  obtain ⟨s, run, h⟩ := Lts.Run.of_check_any (C := fun _ _ => true) (s := initial)
    (p := fun s : State => s.store.history.any fun x => x.post.any fun post =>
      s.store.db.endpoints.all fun q => q.secret ≠ post.secret)
    (show (Lts.check (State.step {}) _ _ (samplePublished ++ handOut 0 [sampleRecord 0 (.fanOut (.ofNat 2))] ++
      [.task 0 .resolve, .updateEndpoint (.ofNat 1) { secret := some (some "new") }, .task 0 .select,
        .task 0 (.post (.response 200 []))])).any _ = true by decide +kernel)
  simp only [List.any_eq_true, Option.any_eq_true, List.all_eq_true, decide_eq_true_eq] at h
  obtain ⟨x, made, post, hx, old⟩ := h
  obtain ⟨r, rfl⟩ := Happening.post_eq_some.1 hx
  exact ⟨_, s, r, post, made, old, posts_from_rows run.any made⟩

end
end HookRelay
