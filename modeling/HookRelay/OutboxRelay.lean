import HookRelay.Lib.Slots
import HookRelay.Provenance

/-!
# What the outbox relays publish

A relay publishes the rows of its batch one by one and deletes them in one transaction, so a process
that dies in between leaves published rows in the outbox. A row is gone only after some relay has
published it, whatever fails. Without a crash no row is published twice: a row that a relay has
published is locked by its transaction until the commit deletes it.
-/

namespace HookRelay

/-- The row a relay publishes in the step. -/
def State.relayed (s : State) : Action → Option OutboxEntry
  | .relay w (.publish _ _) =>
    match s.relays[w]? with
    | some (.batch (entry :: _) _) => some entry
    | _ => none
  | _ => none

/-- The rows the relays publish in a run, in order. -/
def State.relayedRows (cfg : Settings) (s : State) (as : List Action) : List OutboxEntry :=
  Lts.outputs (State.step cfg) State.relayed s as

/-- A worker process dies, or fails and starts anew. -/
def Action.crashes : Action → Bool
  | .loop (.crash _) => true
  | _ => false

abbrev NoCrash (_ : State) (a : Action) : Prop := a.crashes = false

/-- How a step changes the relay of a worker. -/
inductive Relay.Moves (s : State) (w : Nat) : Action → Relay → Prop where
  | select (found : s.relays[w]? = some .idle) :
      Moves s w (.relay w .select) (.batch s.selectable [])
  | publish {p o : Nat} {entry : OutboxEntry} {todo done : List OutboxEntry}
      (found : s.relays[w]? = some (.batch (entry :: todo) done)) :
      Moves s w (.relay w (.publish p o)) (.batch todo (done ++ [entry]))
  | commit {done : List OutboxEntry} (found : s.relays[w]? = some (.batch [] done)) :
      Moves s w (.relay w .commit) .idle
  | crash : Moves s w (.loop (.crash w)) .idle

/-- Two relays hold different rows. -/
def Relay.Apart (relay relay' : Relay) : Prop :=
  ∀ o ∈ relay.locked, ∀ o' ∈ relay'.locked, o.id ≠ o'.id

/-- The rows the relays hold are there, and each is held once. -/
structure Locking (s : State) : Prop where
  apart : Slots.Apart Relay.Apart s.relays
  distinct : ∀ relay ∈ s.relays, (relay.locked.map (·.id)).Nodup
  live : ∀ relay ∈ s.relays, ∀ o ∈ relay.locked, o ∈ s.store.db.outbox

/-- What was published so far: every row a relay has published and not committed, and nothing but
rows whose event is in the topic. -/
structure Relayed (s : State) (out : List OutboxEntry) : Prop where
  issued : ∀ o ∈ out, o.id ∈ s.store.db.issued
  published : ∀ relay ∈ s.relays, ∀ o ∈ relay.published, o ∈ out
  logged : ∀ o ∈ out, ∃ r ∈ s.group.log, r.value = .fanOut o.eventId

/-- Without a crash, what was published was published once, and is held or gone. -/
structure RelayedOnce (s : State) (out : List OutboxEntry) : Prop where
  once : (out.map (·.id)).Nodup
  settled : ∀ o ∈ out, (∃ relay ∈ s.relays, o ∈ relay.published) ∨
    ∀ o' ∈ s.store.db.outbox, o'.id ≠ o.id

section

variable {cfg : Settings} {s s' : State} {a : Action} {out : List OutboxEntry}

theorem Relay.published_locked {relay : Relay} {o : OutboxEntry} (h : o ∈ relay.published) :
    o ∈ relay.locked := by
  cases relay with
  | idle => cases h
  | batch => exact List.mem_append_right _ h

theorem Relay.Apart.symm {relay relay' : Relay} (h : relay.Apart relay') : relay'.Apart relay :=
  fun o ho o' ho' same => h o' ho' o ho same.symm

theorem Relay.Apart.idle (relay : Relay) : Relay.idle.Apart relay := fun _ ho => by cases ho

/-- The relays change by a step of one of them, or by a new one. -/
theorem Transition.relays_cases (h : Transition cfg s a s') :
    ((s'.relays = s.relays ∨ s'.relays = s.relays ++ [.idle]) ∧ s.relayed a = none ∧
        ∀ w, a ≠ .relay w .commit) ∨
      ∃ w relay, relay.Moves s w a ∧ s'.relays = s.relays.set w relay := by
  cases h with
  | relaySleep => exact .inl ⟨.inl rfl, rfl, fun _ => by simp⟩
  | relaySelect found => exact .inr ⟨_, _, .select found, rfl⟩
  | relayPublish found => exact .inr ⟨_, _, .publish found, rfl⟩
  | relayCommit found => exact .inr ⟨_, _, .commit found, rfl⟩
  | crash => exact .inr ⟨_, _, .crash, rfl⟩
  | spawn => exact .inl ⟨.inr rfl, rfl, fun _ => by simp⟩
  | _ => exact .inl ⟨.inl rfl, rfl, fun _ => by simp⟩

theorem mem_selectable {o : OutboxEntry} (h : o ∈ s.selectable) :
    o ∈ s.store.db.outbox ∧ ∀ relay ∈ s.relays, ∀ o' ∈ relay.locked, o'.id ≠ o.id := by
  have h := List.mem_filter.1 (List.mem_of_mem_take h)
  simpa [List.all_eq_true] using h

/-! ## Locks -/

/-- The rows that only their own relay deletes outlive every other step. -/
theorem Locking.outbox_kept (h : Locking s) (hs : Transition cfg s a s') {w : Nat} {relay : Relay}
    (found : s.relays[w]? = some relay) (waits : a ≠ .relay w .commit) {o : OutboxEntry}
    (ho : o ∈ relay.locked) : o ∈ s'.store.db.outbox := by
  rcases hs.outbox_kept (h.live relay (List.mem_of_getElem? found) o ho) with
    kept | ⟨v, done, rfl, found', o', ho', same⟩
  · exact kept
  · have ne : v ≠ w := fun same => waits (by rw [same])
    exact absurd same (h.apart v w _ relay ne found' found o' (List.mem_append_right _ ho') o ho)

/-- A relay after the step holds rows that are there, each once, and that no other relay holds. -/
theorem Relay.Moves.locked {w : Nat} {relay : Relay} (moved : relay.Moves s w a) (h : Locking s)
    (hs : Transition cfg s a s') :
    (∀ j other, j ≠ w → s.relays[j]? = some other → relay.Apart other) ∧
      (relay.locked.map (·.id)).Nodup ∧ ∀ o ∈ relay.locked, o ∈ s'.store.db.outbox := by
  cases moved with
  | select found =>
    refine ⟨fun j other _ hj o ho o' ho' same => ?_, ?_, fun o ho => ?_⟩
    · rw [Relay.locked, List.append_nil] at ho
      exact (mem_selectable ho).2 other (List.mem_of_getElem? hj) o' ho' same.symm
    · rw [Relay.locked, List.append_nil]
      exact s.store.db.valid.outbox_pkey.sublist
        (((List.take_sublist _ _).trans List.filter_sublist).map _)
    · rw [Relay.locked, List.append_nil] at ho
      exact (hs.outbox_kept (mem_selectable ho).1).resolve_right (by simp)
  | @publish _ _ entry todo done found =>
    have perm : (todo ++ (done ++ [entry])).Perm (entry :: todo ++ done) := by
      rw [← List.append_assoc]
      exact List.perm_append_singleton entry (todo ++ done)
    refine ⟨fun j other ne hj o ho => ?_, ?_, fun o ho => ?_⟩
    · exact h.apart w j _ other ne.symm found hj o (perm.mem_iff.1 ho)
    · exact (perm.map _).nodup_iff.2 (h.distinct _ (List.mem_of_getElem? found))
    · exact h.outbox_kept hs found (by simp) (perm.mem_iff.1 ho)
  | commit | crash =>
    exact ⟨fun _ other _ _ => .idle other, List.nodup_nil, fun _ ho => by cases ho⟩

theorem Locking.step (h : Locking s) (hs : Transition cfg s a s') : Locking s' := by
  rcases hs.relays_cases with ⟨idle, -, waits⟩ | ⟨w, relay, moved, set⟩
  · have kept : ∀ relay ∈ s.relays, ∀ o ∈ relay.locked, o ∈ s'.store.db.outbox := by
      intro relay hr o ho
      obtain ⟨w, found⟩ := List.mem_iff_getElem?.1 hr
      exact h.outbox_kept hs found (waits w) ho
    rcases idle with same | grown
    · exact ⟨same ▸ h.apart, same ▸ h.distinct, same ▸ kept⟩
    · have old : ∀ relay ∈ s'.relays, relay ∈ s.relays ∨ relay = .idle := fun relay hr =>
        (List.mem_append.1 (grown ▸ hr)).imp_right List.mem_singleton.1
      constructor
      · rw [grown]
        exact h.apart.snoc fun relay _ => ⟨.idle relay, (Relay.Apart.idle relay).symm⟩
      · intro relay hr
        rcases old relay hr with hr | rfl
        · exact h.distinct relay hr
        · exact List.nodup_nil
      · intro relay hr
        rcases old relay hr with hr | rfl
        · exact kept relay hr
        · exact fun _ ho => by cases ho
  · obtain ⟨apart, distinct, live⟩ := moved.locked h hs
    have waits : ∀ j, j ≠ w → a ≠ .relay j .commit := by
      rintro j ne rfl
      cases moved
      exact ne rfl
    constructor
    · rw [set]
      exact h.apart.set fun j other ne hj => ⟨apart j other ne hj, (apart j other ne hj).symm⟩
    · intro other ho
      rcases Slots.mem_set (set ▸ ho) with rfl | ⟨j, -, hj⟩
      · exact distinct
      · exact h.distinct other (List.mem_of_getElem? hj)
    · intro other ho
      rcases Slots.mem_set (set ▸ ho) with rfl | ⟨j, ne, hj⟩
      · exact live
      · exact fun o => h.outbox_kept hs hj (waits j ne)

theorem Locking.initial : Locking initial where
  apart := .nil
  distinct _ hr := by cases hr
  live _ hr := by cases hr

theorem locking (h : Reachable cfg s) : Locking s :=
  h.invariant (fun _ _ _ h _ hs => h.step (step_transition hs)) .initial

/-! ## What was published -/

/-- The row published in a step is the first one of its relay's batch. -/
theorem Transition.relayed_cases (hs : Transition cfg s a s') {entry : OutboxEntry}
    (h : s.relayed a = some entry) : ∃ w todo done,
      s.relays[w]? = some (.batch (entry :: todo) done) ∧
      s'.relays = s.relays.set w (.batch todo (done ++ [entry])) ∧
      ∃ r ∈ s'.group.log, r.value = .fanOut entry.eventId := by
  cases hs with
  | @relayPublish w _ _ entry' todo done _ found appended =>
    simp only [State.relayed, found, Option.some.injEq] at h
    subst h
    exact ⟨w, todo, done, found, rfl, _, ConsumerGroup.append_mem appended, rfl⟩
  | _ => cases h

theorem mem_outputs {o : OutboxEntry} :
    o ∈ out ++ (s.relayed a).toList ↔ o ∈ out ∨ s.relayed a = some o := by
  simp

theorem Relayed.step (h : Relayed s out) (lock : Locking s) (hs : Transition cfg s a s') :
    Relayed s' (out ++ (s.relayed a).toList) where
  issued o ho := by
    rcases mem_outputs.1 ho with ho | published
    · exact hs.evolves.issued _ (h.issued o ho)
    · obtain ⟨w, todo, done, found, -⟩ := hs.relayed_cases published
      have live := lock.live _ (List.mem_of_getElem? found) o List.mem_cons_self
      exact hs.evolves.issued _ (s.store.db.valid.outbox_issued o live)
  published relay hr o ho := by
    rcases hs.relays_cases with ⟨idle, -, -⟩ | ⟨w, new, moved, set⟩
    · apply List.mem_append_left
      rcases idle with same | grown
      · exact h.published relay (same ▸ hr) o ho
      · rcases List.mem_append.1 (grown ▸ hr) with hr | hr
        · exact h.published relay hr o ho
        · rw [List.mem_singleton.1 hr] at ho
          cases ho
    · rcases Slots.mem_set (set ▸ hr) with rfl | ⟨j, -, hj⟩
      · cases moved with
        | select | commit | crash => cases ho
        | publish found =>
          rcases List.mem_append.1 ho with ho | ho
          · exact List.mem_append_left _ (h.published _ (List.mem_of_getElem? found) o ho)
          · rw [mem_outputs, State.relayed, found, List.mem_singleton.1 ho]
            exact .inr rfl
      · exact List.mem_append_left _ (h.published relay (List.mem_of_getElem? hj) o ho)
  logged o ho := by
    rcases mem_outputs.1 ho with ho | published
    · obtain ⟨r, hr, value⟩ := h.logged o ho
      exact ⟨r, hs.log_mono hr, value⟩
    · obtain ⟨w, todo, done, -, -, logged⟩ := hs.relayed_cases published
      exact logged

/-- A row that a relay has ready to publish was not published. -/
theorem RelayedOnce.fresh (h : RelayedOnce s out) (lock : Locking s) {w : Nat}
    {entry : OutboxEntry} {todo done : List OutboxEntry}
    (found : s.relays[w]? = some (.batch (entry :: todo) done)) : entry.id ∉ out.map (·.id) := by
  intro hm
  obtain ⟨o, ho, same⟩ := List.mem_map.1 hm
  have hr := List.mem_of_getElem? found
  rcases h.settled o ho with ⟨relay, hrel, published⟩ | gone
  · obtain ⟨j, hj⟩ := List.mem_iff_getElem?.1 hrel
    by_cases here : j = w
    · subst here
      cases found.symm.trans hj
      have distinct := lock.distinct _ hr
      rw [Relay.locked, List.cons_append, List.map_cons, List.nodup_cons] at distinct
      exact distinct.1 (List.mem_map.2 ⟨o, List.mem_append_right _ published, same⟩)
    · exact lock.apart j w _ _ here hj found o (Relay.published_locked published) entry
        List.mem_cons_self same
  · exact gone entry (lock.live _ hr entry List.mem_cons_self) same.symm

theorem RelayedOnce.step (h : RelayedOnce s out) (before : Relayed s out) (lock : Locking s)
    (hs : Transition cfg s a s') (alive : NoCrash s a) :
    RelayedOnce s' (out ++ (s.relayed a).toList) where
  once := by
    cases published : s.relayed a with
    | none => simpa using h.once
    | some entry =>
      obtain ⟨w, todo, done, found, -⟩ := hs.relayed_cases published
      exact Tables.nodup_map_snoc h.once (h.fresh lock found)
  settled o ho := by
    rcases mem_outputs.1 ho with ho | published
    · rcases h.settled o ho with ⟨relay, hr, published⟩ | gone
      · rcases hs.relays_cases with ⟨idle, -, -⟩ | ⟨w, new, moved, set⟩
        · refine .inl ⟨relay, ?_, published⟩
          exact idle.elim (fun same => same ▸ hr) fun grown => grown ▸ List.mem_append_left _ hr
        · obtain ⟨j, hj⟩ := List.mem_iff_getElem?.1 hr
          by_cases here : j = w
          · subst here
            have slot : new ∈ s'.relays :=
              set ▸ List.mem_of_getElem? (List.getElem?_set_self (List.getElem?_eq_some_iff.1 hj).1)
            cases moved with
            | select found => cases found.symm.trans hj; cases published
            | publish found =>
              cases found.symm.trans hj
              exact .inl ⟨_, slot, List.mem_append_left _ published⟩
            | commit found =>
              -- the commit deletes what the relay has published
              cases found.symm.trans hj
              right
              cases hs with
              | relayCommit found' =>
                cases found.symm.trans found'
                intro o' ho' same
                exact of_decide_eq_true (List.mem_filter.1 ho').2
                  (same ▸ List.mem_map_of_mem published)
            | crash => cases alive
          · refine .inl ⟨relay, ?_, published⟩
            rw [set]
            exact List.mem_of_getElem? ((List.getElem?_set_ne (Ne.symm here)).trans hj)
      · right
        intro o' ho' same
        rcases hs.outbox_cases ho' with old | ⟨new, -⟩
        · exact gone o' old same
        · exact new (same ▸ before.issued o ho)
    · obtain ⟨w, todo, done, found, set, -⟩ := hs.relayed_cases published
      have slot := List.getElem?_set_self (a := Relay.batch todo (done ++ [o]))
        (List.getElem?_eq_some_iff.1 found).1
      exact .inl ⟨_, set ▸ List.mem_of_getElem? slot,
        List.mem_append_right _ (List.mem_singleton_self o)⟩

theorem Relayed.initial : Relayed initial [] where
  issued _ ho := by cases ho
  published _ hr := by cases hr
  logged _ ho := by cases ho

theorem RelayedOnce.initial : RelayedOnce initial [] where
  once := List.nodup_nil
  settled _ ho := by cases ho

/-! ## Runs -/

theorem relayed {C : State → Action → Prop} {as : List Action}
    (run : Lts.Run (State.step cfg) C initial as s) :
    Relayed s (initial.relayedRows cfg as) :=
  run.invariant_outputs (I := Relayed)
    (fun _ _ _ _ reach h _ hs => h.step (locking reach) (step_transition hs))
    (.refl initial) Relayed.initial

theorem relayedOnce {as : List Action} (run : Lts.Run (State.step cfg) NoCrash initial as s) :
    RelayedOnce s (initial.relayedRows cfg as) := by
  have both : Relayed s (initial.relayedRows cfg as) ∧ RelayedOnce s (initial.relayedRows cfg as) :=
    run.invariant_outputs (I := fun s out => Relayed s out ∧ RelayedOnce s out)
      (fun _ _ _ _ reach h alive hs => ⟨h.1.step (locking reach) (step_transition hs),
        h.2.step h.1 (locking reach) (step_transition hs) alive⟩)
      (.refl initial) (show Relayed initial [] ∧ RelayedOnce initial [] from ⟨.initial, .initial⟩)
  exact both.2

/-- A row goes only after a relay has published it. -/
theorem Relayed.kept {o : OutboxEntry} (h : Relayed s out) (prov : Provenance s)
    (hs : Transition cfg s a s') (held : o ∈ s.store.db.outbox ∨ o ∈ out) :
    o ∈ s'.store.db.outbox ∨ o ∈ out ++ (s.relayed a).toList := by
  rcases held with there | published
  · rcases hs.outbox_kept there with kept | ⟨w, done, -, found, o', ho', same⟩
    · exact .inl kept
    · have hr := List.mem_of_getElem? found
      have owned := prov.locked _ hr o' (List.mem_append_right _ ho')
      rw [owned.unique o there same.symm]
      exact .inr (List.mem_append_left _ (h.published _ hr o' ho'))
  · exact .inr (List.mem_append_left _ published)

end

/-- In every run, with whatever crashes, a row that was in the outbox is still there unless a relay
has published it, and then its event is in the pending topic. -/
theorem outbox_row_published {cfg : Settings} {as bs : List Action} {s s' : State}
    (before : Lts.Run (State.step cfg) Lts.Any initial as s)
    (after : Lts.Run (State.step cfg) Lts.Any s bs s') {o : OutboxEntry}
    (there : o ∈ s.store.db.outbox) : o ∈ s'.store.db.outbox ∨
      o ∈ initial.relayedRows cfg (as ++ bs) ∧ ∃ r ∈ s'.group.log, r.value = .fanOut o.eventId := by
  have both : Relayed s' (initial.relayedRows cfg as ++ s.relayedRows cfg bs) ∧
      (o ∈ s'.store.db.outbox ∨ o ∈ initial.relayedRows cfg as ++ s.relayedRows cfg bs) :=
    after.invariant_outputs (I := fun s out => Relayed s out ∧ (o ∈ s.store.db.outbox ∨ o ∈ out))
      (fun _ _ _ _ reach h _ hs => ⟨h.1.step (locking reach) (step_transition hs),
        h.1.kept (provenance reach) (step_transition hs) h.2⟩)
      ⟨as, before⟩ ⟨relayed before, .inl there⟩
  rw [State.relayedRows, before.outputs_append]
  exact both.2.imp_right fun published => ⟨published, both.1.logged o published⟩

/-- The relays publish every outbox row at least once, and exactly once without crashes. -/
theorem outbox_relayed (cfg : Settings) :
    (∀ (as bs : List Action) (s s' : State), Lts.Run (State.step cfg) Lts.Any initial as s →
      Lts.Run (State.step cfg) Lts.Any s bs s' → ∀ o ∈ s.store.db.outbox,
        o ∈ s'.store.db.outbox ∨ o ∈ initial.relayedRows cfg (as ++ bs) ∧
          ∃ r ∈ s'.group.log, r.value = .fanOut o.eventId) ∧
    ∀ (as : List Action) (s : State), Lts.Run (State.step cfg) NoCrash initial as s →
      ((initial.relayedRows cfg as).map (·.id)).Nodup :=
  ⟨fun _ _ _ _ before after _ there => outbox_row_published before after there,
    fun _ _ run => (relayedOnce run).once⟩

/-- Two relays hold a row each; both publish theirs and commit. -/
theorem outbox_relayed_two : ∃ (as bs : List Action) (s s' : State),
    s.store.db.outbox.length = 2 ∧ s'.store.db.outbox = [] ∧
    (∀ o ∈ s.store.db.outbox, o ∈ initial.relayedRows {} (as ++ bs)) ∧
    ((initial.relayedRows {} (as ++ bs)).map (·.id)).Nodup := by
  let as : List Action :=
    [.loop .spawn, .loop .spawn, .ingest (.ofNat 1) (.ofNat 2) sampleEvent, .relay 0 .select,
      .ingest (.ofNat 3) (.ofNat 4) { sampleEvent with idempotencyKey := "order-2" },
      .relay 1 .select]
  let bs : List Action :=
    [.relay 1 (.publish 0 0), .relay 0 (.publish 0 1), .relay 0 .commit, .relay 1 .commit]
  have checked : ((Lts.check (State.step {}) (fun _ a => !a.crashes) initial as).bind fun s =>
      (Lts.check (State.step {}) (fun _ a => !a.crashes) s bs).map fun s' => (s, s')).any
      (fun x => x.1.store.db.outbox.length = 2 && x.2.store.db.outbox.isEmpty) = true := by
    decide +kernel
  simp only [Option.any_eq_true, Option.bind_eq_some_iff, Option.map_eq_some_iff, Bool.and_eq_true,
    decide_eq_true_eq, List.isEmpty_iff] at checked
  obtain ⟨-, ⟨s, first, s', second, rfl⟩, two, gone⟩ := checked
  have before := (Lts.Run.of_check first).mono (D := NoCrash) fun s a h => by simpa using h
  have after := (Lts.Run.of_check second).mono (D := NoCrash) fun s a h => by simpa using h
  obtain ⟨published, once⟩ := outbox_relayed {}
  refine ⟨as, bs, s, s', two, gone, fun o ho => ?_, once _ _ (before.append after)⟩
  rcases published as bs s s' before.any after.any o ho with left | ⟨there, -⟩
  · rw [gone] at left
    cases left
  · exact there

end HookRelay
