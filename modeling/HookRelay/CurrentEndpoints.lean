import HookRelay.Evolution

/-!
# Deliveries and the current endpoint

One `_process_record` call, followed through a run of the whole system. It reads its targets once; by the time
it begins to deliver to one of them, requests may have updated, disabled or deleted the endpoint.
-/

namespace HookRelay

/-- What a delivery depends on. -/
def Endpoint.configuration (p : Endpoint) : String × String × Bool := (p.url, p.secret, p.enabled)

/-- The POST has the url and the secret of its endpoint, which exists and is enabled. -/
def Post.Current (p : Post) (t : Tables) : Prop :=
  ∃ q, t.getEndpoint p.endpointId = some q ∧ q.enabled = true ∧ p.url = q.url ∧ p.secret = q.secret

/-- Where the task at place `i` stands after a step, unless the step ends it. -/
def State.follow (s : State) (i : Nat) : Action → Option Nat
  | .finish j _ => if j = i then none else some (if j < i then i - 1 else i)
  | .loop (.crash w) =>
    if (s.group.tasks[i]?).any (·.worker = w) then none
    else some ((s.group.tasks.take i).countP (·.worker ≠ w))
  | _ => some i

/-- A task of the system, with the tables at the moment its call read its targets, and at the moment the
`_deliver_to_endpoint` call it is in began. -/
structure Watch where
  state : State
  task : Nat
  read : Tables
  begun : Option Tables

/-- `_deliver_to_endpoint` is called, or the system takes a step. -/
inductive WatchAction where
  | begin
  | system (a : Action)

namespace Watch

def delivery (w : Watch) : Option Delivery := w.state.delivery w.task

/-- The step that the action is for the watched call. -/
def own (w : Watch) : Action → Option TaskAction
  | .task i b => if i = w.task then some b else none
  | _ => none

/-- The next `_deliver_to_endpoint` call has not begun. -/
def waits (w : Watch) : Bool := w.begun.isNone && w.delivery.any (·.stage = .checking)

/-- The session is closed between the read of the targets and the first `_deliver_to_endpoint`, so other steps
may come in between. -/
def step (cfg : Settings) (w : Watch) : WatchAction → Option Watch
  | .begin => if w.waits then some { w with begun := some w.state.store.db.toTables } else none
  | .system a =>
    if (w.own a).isSome && w.waits then none
    else do
      let state ← w.state.step cfg a
      let task ← w.state.follow w.task a
      match w.own a with
      | none => some { w with state, task }
      | some b =>
        some {
          state
          task
          read := match b with
            | .resolve => w.state.store.db.toTables
            | _ => w.read
          begun := if (state.delivery task).any (·.stage = .checking) then none else w.begun }

/-- The POST that the step makes. -/
def posted (w : Watch) : WatchAction → Option Post
  | .begin => none
  | .system a =>
    match w.own a with
    | some (.post result) => w.delivery.map (·.post result)
    | _ => none

/-- A POST has the url and the secret committed when its `_deliver_to_endpoint` began, and goes to an endpoint
that was enabled then. -/
def PostsCurrent (w : Watch) (a : WatchAction) : Prop :=
  ∀ p, w.posted a = some p → ∃ t, w.begun = some t ∧ p.Current t

/-- Between the read of the targets and the beginning of the delivery, nothing has become of the configuration of
the endpoint that is posted to. -/
def Steady (w : Watch) (a : WatchAction) : Prop :=
  ∀ result d t, a = .system (.task w.task (.post result)) → w.delivery = some d → w.begun = some t →
    (t.getEndpoint d.endpoint.id).map (·.configuration) =
      (w.read.getEndpoint d.endpoint.id).map (·.configuration)

/-- The endpoints whose delivery has not begun. -/
def ahead (w : Watch) : List Endpoint :=
  match w.delivery with
  | none => []
  | some d => if w.begun.isSome then d.rest else d.endpoint :: d.rest

/-- No request changes an endpoint before its delivery has begun. -/
def Undisturbed (w : Watch) : WatchAction → Prop
  | .system (.updateEndpoint id _) | .system (.deleteEndpoint id) => ∀ q ∈ w.ahead, q.id ≠ id
  | _ => True

end Watch

/-! ## Following a task -/

/-- The elements in front that a filter keeps are in front of those it keeps. -/
theorem getElem?_filter_countP {α : Type*} {p : α → Bool} {l : List α} {i : Nat} {x : α} (found : l[i]? = some x)
    (keep : p x = true) : (l.filter p)[(l.take i).countP p]? = some x := by
  induction l generalizing i with
  | nil => cases found
  | cons y l ih =>
    cases i with
    | zero =>
      obtain rfl := Option.some.inj found
      rw [List.filter_cons_of_pos keep]
      rfl
    | succ i =>
      have rest := ih (i := i) found
      rw [List.take_succ_cons, List.countP_cons, List.filter_cons]
      by_cases kept : p y = true
      · rw [if_pos kept, if_pos kept]
        exact rest
      · rw [if_neg kept, if_neg kept]
        exact rest

section

variable {cfg : Settings} {s s' : State} {a : Action} {i i' : Nat}

/-- A task that no step of its own moved is found again. -/
theorem Transition.follow_tasks (hs : Transition cfg s a s') (place : s.follow i a = some i')
    (other : ∀ b, a ≠ .task i b) {t : Task Message Call} (found : s.group.tasks[i]? = some t) :
    s'.group.tasks[i']? = some t := by
  have bound := (List.getElem?_eq_some_iff.1 found).1
  cases hs with
  | requestPublish _ _ appended | relayPublish _ appended | schedulerPublish _ _ appended
  | duplicate _ appended =>
    obtain rfl := Option.some.inj place
    rw [(ConsumerGroup.append_eq_some appended).1]
    exact found
  | loop stepped running =>
    have stays : i' = i := by
      unfold State.follow at place
      split at place
      · rename_i same
        cases same
      · rename_i w same
        cases same
        exact absurd rfl (running w)
      · exact (Option.some.inj place).symm
    subst stays
    obtain same | ⟨t', -, more⟩ := ConsumerGroup.loopStep_started stepped running
    · exact (congrArg (·[i']?) same).trans found
    · refine (congrArg (·[i']?) more).trans ?_
      rw [List.getElem?_append_left bound, found]
  | @crash w group crashed =>
    change (if (s.group.tasks[i]?).any (·.worker = w) then none
      else some ((s.group.tasks.take i).countP (·.worker ≠ w))) = some i' at place
    rw [found, Option.any_some] at place
    obtain ⟨lives, rfl⟩ := Option.ite_none_left_eq_some.1 place |>.imp_right Option.some.inj
    obtain ⟨-, rfl⟩ := Option.ite_none_right_eq_some.1 crashed |>.imp_right Option.some.inj
    exact getElem?_filter_countP found (by simpa using lives)
  | @task j b t' store call here moved =>
    obtain rfl := Option.some.inj place
    have apart : j ≠ i := by
      rintro rfl
      exact other b rfl
    change (s.group.tasks.set j _)[i]? = some t
    rw [List.getElem?_set_ne apart, found]
  | @finish j o t' group here pure ended finished =>
    obtain ⟨_, _, _, tasks, _⟩ := ConsumerGroup.finish_eq_some finished
    obtain ⟨apart, rfl⟩ := Option.ite_none_left_eq_some.1 place |>.imp_right Option.some.inj
    change group.tasks[_]? = some t
    rw [tasks, List.getElem?_eraseIdx]
    by_cases before : j < i
    · rw [if_pos before, if_neg (by omega), Nat.sub_add_cancel (by omega), found]
    · rw [if_neg before, if_pos (by omega), found]
  | _ =>
    obtain rfl := Option.some.inj place
    exact found

/-! ## One step -/

/-- Only the requests on an endpoint change or delete its row. -/
theorem Transition.getEndpoint_kept (hs : Transition cfg s a s') {q : Endpoint}
    (found : s.store.db.getEndpoint q.id = some q) (updated : ∀ body, a ≠ .updateEndpoint q.id body)
    (deleted : a ≠ .deleteEndpoint q.id) : s'.store.db.getEndpoint q.id = some q := by
  have here := (Tables.getEndpoint_some found).1
  obtain ⟨q', there, same⟩ :=
    Tables.mem_endpointIds.1 (hs.endpoint_kept (Tables.mem_endpointIds.2 ⟨q, here, rfl⟩) deleted)
  obtain old | fresh | ⟨id, body, _, _, request, -, -, row⟩ := hs.endpoint_cases there
  · obtain rfl := Tables.eq_of_nodup_map s.store.db.valid.endpoints_pkey old here same
    exact s'.store.db.valid.getEndpoint_eq there
  · rw [same] at fresh
    exact absurd (s.store.db.valid.endpoints_issued q here) fresh
  · subst row
    exact absurd (same ▸ request) (updated body)

/-- A call delivers to what it delivered to before, to the next of its targets, or to the targets it has just
read. -/
theorem Moves.delivery_cases {st st' : Store} {r : Record Message} {c c' : Call} {b : TaskAction} {d' : Delivery}
    (h : Moves cfg st r c b st' c') (after : c' = .delivering d') :
    (b = .resolve ∧ resolveTargets st.db.toTables r.value = .delivering d') ∨
      ∃ d, c = .delivering d ∧ b ≠ .resolve ∧
        ((d'.stage = .checking ∧ d'.endpoint :: d'.rest = d.rest) ∨
          (d'.stage ≠ .checking ∧ d'.endpoint = d.endpoint ∧ d'.rest = d.rest)) := by
  have next : ∀ {d : Delivery}, d.next = .delivering d' →
      d'.stage = .checking ∧ d'.endpoint :: d'.rest = d.rest := by
    intro d hd
    obtain ⟨-, -, stage, same⟩ := deliverNext_eq hd
    exact ⟨stage, same⟩
  have goto : ∀ {d : Delivery} {stage : Stage}, stage ≠ .checking → d.goto stage = .delivering d' →
      d'.stage ≠ .checking ∧ d'.endpoint = d.endpoint ∧ d'.rest = d.rest := by
    intro d stage on hd
    obtain rfl := Call.delivering.inj hd
    exact ⟨on, rfl, rfl⟩
  cases h with
  | resolve => exact .inl ⟨rfl, after⟩
  | skip | schedule | notify | notifyFailed => exact .inr ⟨_, rfl, by simp, .inl (next after)⟩
  | pass | post | dlqConflict | insertDlq | cancel | cancelFailed =>
    exact .inr ⟨_, rfl, by simp, .inr (goto (by simp) after)⟩
  | conflict | record =>
    refine .inr ⟨_, rfl, by simp, ?_⟩
    split at after
    · exact .inl (next after)
    · exact .inr (goto (by simp) after)

/-- The targets just read are rows of the tables, and enabled. -/
theorem resolved_current {t : Tables} (v : t.Valid) {m : Message} {d : Delivery}
    (resolved : resolveTargets t m = .delivering d) {q : Endpoint} (hq : q ∈ d.endpoint :: d.rest) :
    t.getEndpoint q.id = some q ∧ q.enabled = true := by
  obtain ⟨-, -, -, same⟩ := resolveTargets_eq resolved
  rw [same] at hq
  refine ⟨v.getEndpoint_eq (targets_exist hq), ?_⟩
  obtain ⟨_, -, -, enabled⟩ | ⟨-, matching⟩ := mem_targets.1 hq
  · exact enabled
  · exact (Tables.mem_matching.1 matching).2.1

theorem Moves.posting {st st' : Store} {r : Record Message} {c c' : Call} {result : HttpResult}
    (h : Moves cfg st r c (.post result) st' c') : ∃ d, c = .delivering d ∧ d.stage = .posting := by
  cases h with
  | post stage => exact ⟨_, rfl, stage⟩

end

namespace Watch

/-- The targets are copies of what was read; a delivery that is under way has begun. -/
structure Inv (w : Watch) : Prop where
  alive : ∃ t, w.state.group.tasks[w.task]? = some t
  copies : ∀ d, w.delivery = some d → ∀ q ∈ d.endpoint :: d.rest,
    w.read.getEndpoint q.id = some q ∧ q.enabled = true
  begun : ∀ d, w.delivery = some d → d.stage ≠ .checking → w.begun.isSome = true

section

variable {cfg : Settings} {w w' : Watch} {a : Action}

theorem own_eq_some {b : TaskAction} : w.own a = some b ↔ a = .task w.task b := by
  cases a <;> simp [own]

/-- A step of the system that is not the call's own leaves the call as it is. -/
theorem step_other (h : w.step cfg (.system a) = some w') (other : w.own a = none) :
    Transition cfg w.state a w'.state ∧ w'.read = w.read ∧ w'.begun = w.begun ∧
      ∀ t, w.state.group.tasks[w.task]? = some t → w'.state.group.tasks[w'.task]? = some t := by
  simp only [step, other, Option.isSome_none, Bool.false_and, Bool.false_eq_true, if_false,
    Option.bind_eq_bind, Option.bind_eq_some_iff, Option.some.injEq] at h
  obtain ⟨state, stepped, task, place, rfl⟩ := h
  have moved := step_transition stepped
  refine ⟨moved, rfl, rfl, fun t found => moved.follow_tasks place (fun b same => ?_) found⟩
  rw [own_eq_some.2 same] at other
  cases other

/-- A step of the call itself. -/
theorem step_own {b : TaskAction} (h : w.step cfg (.system (.task w.task b)) = some w') :
    w.waits = false ∧ ∃ t call, w.state.group.tasks[w.task]? = some t ∧
      Moves cfg w.state.store t.record t.data b w'.state.store call ∧
      w'.state.group.tasks[w'.task]? = some { t with data := call } ∧
      (b = .resolve → w'.read = w.state.store.db.toTables) ∧ (b ≠ .resolve → w'.read = w.read) ∧
      w'.begun = if w'.delivery.any (·.stage = .checking) then none else w.begun := by
  have mine : w.own (.task w.task b) = some b := own_eq_some.2 rfl
  simp only [step, mine, Option.isSome_some, Bool.true_and, Option.ite_none_left_eq_some,
    Option.bind_eq_bind, Option.bind_eq_some_iff, Option.some.injEq] at h
  obtain ⟨ready, state, stepped, task, place, rfl⟩ := h
  obtain rfl := Option.some.inj place
  refine ⟨by simpa using ready, ?_⟩
  cases step_transition stepped with
  | @task _ _ t store call found moved =>
    have bound := (List.getElem?_eq_some_iff.1 found).1
    refine ⟨t, call, found, moved, List.getElem?_set_self bound, ?_, ?_, rfl⟩
    · rintro rfl
      rfl
    · intro other
      cases b with
      | resolve => exact absurd rfl other
      | _ => rfl

theorem step_ready {s : State} {i : Nat} (ready : ((w.own a).isSome && w.waits) = false)
    (stepped : w.state.step cfg a = some s) (place : w.state.follow w.task a = some i) :
    ∃ w', w.step cfg (.system a) = some w' ∧ w'.state = s ∧ w'.task = i := by
  rw [step, ready, if_neg Bool.false_ne_true, stepped, Option.bind_eq_bind, Option.bind_some, place,
    Option.bind_eq_bind, Option.bind_some]
  split
  · exact ⟨_, rfl, rfl, rfl⟩
  · exact ⟨_, rfl, rfl, rfl⟩

/-- Until the call ends, the watch goes along with every step of the system. -/
theorem exists_run {s : State} {i : Nat} (stepped : w.state.step cfg a = some s)
    (place : w.state.follow w.task a = some i) :
    ∃ as w', Lts.Run (Watch.step cfg) Lts.Any w as w' ∧ w'.state = s ∧ w'.task = i := by
  cases waiting : (w.own a).isSome && w.waits with
  | false =>
    obtain ⟨w', hs, here⟩ := step_ready waiting stepped place
    exact ⟨_, w', .single trivial hs, here⟩
  | true =>
    -- the delivery begins first
    let w₁ : Watch := { w with begun := some w.state.store.db.toTables }
    have begins : w.step cfg .begin = some w₁ := if_pos (Bool.and_eq_true_iff.1 waiting).2
    have ready : ((w₁.own a).isSome && w₁.waits) = false := by simp [w₁, waits]
    obtain ⟨w', hs, here⟩ := step_ready ready stepped place
    exact ⟨_, w', .cons trivial begins (.single trivial hs), here⟩

theorem delivery_eq {t : Task Message Call} (found : w.state.group.tasks[w.task]? = some t) :
    w.delivery = t.data.delivery := by
  rw [delivery, State.delivery, State.call, found]
  rfl

/-- The delivery a step of the call itself has led to. -/
inductive Reaches (w w' : Watch) (d' : Delivery) : Prop where
  | resolved {m : Message} (targets : resolveTargets w.state.store.db.toTables m = .delivering d')
      (read : w'.read = w.state.store.db.toTables) (begun : w'.begun = none)
  | next {d : Delivery} (held : w.delivery = some d) (rest : d'.endpoint :: d'.rest = d.rest)
      (stage : d'.stage = .checking) (read : w'.read = w.read) (begun : w'.begun = none)
  | onward {d : Delivery} (held : w.delivery = some d) (endpoint : d'.endpoint = d.endpoint)
      (rest : d'.rest = d.rest) (stage : d'.stage ≠ .checking) (read : w'.read = w.read)
      (begun : w'.begun = w.begun)

theorem step_reaches {b : TaskAction} {d' : Delivery} (h : w.step cfg (.system (.task w.task b)) = some w')
    (delivering : w'.delivery = some d') : w.Reaches w' d' := by
  obtain ⟨-, t, call, found, moved, after, fresh, kept, begun⟩ := step_own h
  have now := delivering
  rw [delivery_eq after, Call.delivery_eq_some] at now
  rw [delivering, Option.any_some] at begun
  obtain ⟨rfl, targets⟩ | ⟨d, before, other, cases⟩ := moved.delivery_cases now
  · rw [decide_eq_true (resolveTargets_eq targets).2.2.1, if_pos rfl] at begun
    exact .resolved targets (fresh rfl) begun
  · have held : w.delivery = some d := by
      rw [delivery_eq found, before]
      rfl
    obtain ⟨stage, rest⟩ | ⟨stage, endpoint, rest⟩ := cases
    · rw [decide_eq_true stage, if_pos rfl] at begun
      exact .next held rest stage (kept other) begun
    · rw [decide_eq_false stage, if_neg Bool.false_ne_true] at begun
      exact .onward held endpoint rest stage (kept other) begun

/-- A call takes a step only in a delivery that has begun. -/
theorem Inv.begun_own {b : TaskAction} {d : Delivery} (h : w.Inv)
    (hs : w.step cfg (.system (.task w.task b)) = some w') (here : w.delivery = some d) :
    w.begun.isSome = true := by
  by_cases checking : d.stage = .checking
  · simpa [waits, here, checking] using (step_own hs).1
  · exact h.begun d here checking

theorem Inv.step {a : WatchAction} (h : w.Inv) (hs : w.step cfg a = some w') : w'.Inv := by
  obtain ⟨t, found⟩ := h.alive
  cases a with
  | begin =>
    obtain ⟨-, rfl⟩ := Option.ite_none_right_eq_some.1 hs |>.imp_right Option.some.inj
    exact ⟨h.alive, h.copies, fun _ _ _ => rfl⟩
  | system a =>
    cases mine : w.own a with
    | none =>
      obtain ⟨-, read, begun, kept⟩ := step_other hs mine
      have same : w'.delivery = w.delivery := by rw [delivery_eq (kept t found), delivery_eq found]
      refine ⟨⟨t, kept t found⟩, ?_, ?_⟩
      · rw [same, read]
        exact h.copies
      · rw [same, begun]
        exact h.begun
    | some b =>
      obtain rfl := own_eq_some.1 mine
      obtain ⟨-, _, _, -, -, after, -⟩ := step_own hs
      refine ⟨⟨_, after⟩, fun d' delivering q hq => ?_, fun d' delivering stage => ?_⟩
      · cases step_reaches hs delivering with
        | resolved targets read =>
          rw [read]
          exact resolved_current w.state.store.db.valid targets hq
        | @next d held rest _ read =>
          rw [read]
          exact h.copies d held q (List.mem_cons_of_mem _ (rest ▸ hq))
        | @onward d held endpoint rest _ read =>
          rw [endpoint, rest] at hq
          rw [read]
          exact h.copies d held q hq
      · cases step_reaches hs delivering with
        | resolved targets => exact absurd (resolveTargets_eq targets).2.2.1 stage
        | next _ _ checking => exact absurd checking stage
        | onward held _ _ _ _ begun =>
          rw [begun]
          exact h.begun_own hs held

/-- A POST of the delivery is current exactly when the endpoint has the configuration it was read with. -/
theorem Inv.current_iff {d : Delivery} {result : HttpResult} {t : Tables} (h : w.Inv)
    (here : w.delivery = some d) :
    (d.post result).Current t ↔
      (t.getEndpoint d.endpoint.id).map (·.configuration) =
        (w.read.getEndpoint d.endpoint.id).map (·.configuration) := by
  obtain ⟨copy, enabled⟩ := h.copies d here d.endpoint List.mem_cons_self
  rw [copy, Option.map_some, Option.map_eq_some_iff]
  refine exists_congr fun q => and_congr_right fun _ => ?_
  simp only [Endpoint.configuration, Prod.mk.injEq, enabled]
  exact ⟨fun ⟨on, url, secret⟩ => ⟨url.symm, secret.symm, on⟩,
    fun ⟨url, secret, on⟩ => ⟨on, url.symm, secret.symm⟩⟩

theorem Inv.postsCurrent_iff {a : WatchAction} (h : w.Inv) (hs : w.step cfg a = some w') :
    w.PostsCurrent a ↔ w.Steady a := by
  by_cases post : ∃ result, a = .system (.task w.task (.post result))
  · obtain ⟨result, rfl⟩ := post
    obtain ⟨-, t, call, found, moved, -⟩ := step_own hs
    obtain ⟨d, before, stage⟩ := moved.posting
    have here : w.delivery = some d := by rw [delivery_eq found, before]; rfl
    obtain ⟨t, begun⟩ := Option.isSome_iff_exists.1 (h.begun d here (by rw [stage]; simp))
    have posted : w.posted (.system (.task w.task (.post result))) = some (d.post result) := by
      simp [Watch.posted, own, here]
    constructor
    · intro current result' d' t' _ here' begun'
      cases here.symm.trans here'
      cases begun.symm.trans begun'
      obtain ⟨t', begun', now⟩ := current _ posted
      cases begun.symm.trans begun'
      exact (h.current_iff here).1 now
    · intro steady p hp
      cases posted.symm.trans hp
      exact ⟨t, begun, (h.current_iff here).2 (steady result d t rfl here begun)⟩
  · have silent : w.posted a = none := by
      cases a with
      | begin => rfl
      | system a =>
        rw [Watch.posted]
        split
        · rename_i result mine
          exact absurd ⟨result, congrArg _ (own_eq_some.1 mine)⟩ post
        · rfl
    constructor
    · intro _ result d t same
      exact absurd ⟨result, same⟩ post
    · intro _ p hp
      rw [silent] at hp
      cases hp

/-- A call that has not read its targets is at no delivery. -/
theorem delivery_resolving (start : w.state.call w.task = some .resolving) : w.delivery = none := by
  rw [delivery, State.delivery, start]
  rfl

theorem Inv.resolving (start : w.state.call w.task = some .resolving) : w.Inv := by
  obtain ⟨t, found, -⟩ := Option.map_eq_some_iff.1 start
  have none : ∀ d, w.delivery ≠ some d := fun d here => by
    rw [delivery_resolving start] at here
    cases here
  exact ⟨⟨t, found⟩, fun d here => absurd here (none d), fun d here => absurd here (none d)⟩

/-! ## Undisturbed deliveries -/

/-- The copies of the endpoints ahead agree with the tables, as did the copy of the endpoint that is delivered to
when its delivery began. -/
structure Fresh (w : Watch) : Prop where
  ahead : ∀ q ∈ w.ahead, w.state.store.db.getEndpoint q.id = some q
  begun : ∀ d t, w.delivery = some d → w.begun = some t → t.getEndpoint d.endpoint.id = some d.endpoint

theorem ahead_waiting {d : Delivery} (here : w.delivery = some d) (begun : w.begun = none) :
    w.ahead = d.endpoint :: d.rest := by
  rw [Watch.ahead, here, begun]
  rfl

theorem ahead_begun {d : Delivery} (here : w.delivery = some d) (begun : w.begun.isSome = true) :
    w.ahead = d.rest := by
  rw [Watch.ahead, here]
  exact if_pos begun

theorem Fresh.step {a : WatchAction} (h : w.Fresh) (inv : w.Inv) (calm : w.Undisturbed a)
    (hs : w.step cfg a = some w') : w'.Fresh := by
  obtain ⟨t, found⟩ := inv.alive
  cases a with
  | begin =>
    obtain ⟨waits, started⟩ := Option.ite_none_right_eq_some.1 hs |>.imp_right Option.some.inj
    simp only [Watch.waits, Bool.and_eq_true, Option.isNone_iff_eq_none, Option.any_eq_true] at waits
    obtain ⟨unbegun, d, here, -⟩ := waits
    have before := h.ahead
    rw [ahead_waiting here unbegun] at before
    have rest : w'.ahead = d.rest := by
      subst started
      exact ahead_begun here rfl
    subst started
    refine ⟨fun q hq => before q (List.mem_cons_of_mem _ (rest ▸ hq)), fun d' t' here' begun' => ?_⟩
    cases here.symm.trans here'
    cases begun'
    exact before d.endpoint List.mem_cons_self
  | system a =>
    cases mine : w.own a with
    | none =>
      obtain ⟨moved, -, begun, kept⟩ := step_other hs mine
      have same : w'.delivery = w.delivery := by rw [delivery_eq (kept t found), delivery_eq found]
      refine ⟨?_, ?_⟩
      · rw [Watch.ahead, same, begun]
        intro q hq
        refine moved.getEndpoint_kept (h.ahead q hq) ?_ ?_
        · rintro body rfl
          exact calm q hq rfl
        · rintro rfl
          exact calm q hq rfl
      · rw [same, begun]
        exact h.begun
    | some b =>
      obtain rfl := own_eq_some.1 mine
      obtain ⟨-, _, _, -, moved, -⟩ := step_own hs
      have same : ∀ id, w'.state.store.db.getEndpoint id = w.state.store.db.getEndpoint id := fun id => by
        rw [Tables.getEndpoint, moved.endpoints_eq, ← Tables.getEndpoint]
      have left : ∀ d, w.delivery = some d → ∀ q ∈ d.rest, w.state.store.db.getEndpoint q.id = some q :=
        fun d held q hq => h.ahead q (by rwa [ahead_begun held (inv.begun_own hs held)])
      refine ⟨fun q hq => ?_, fun d' t' delivering begun' => ?_⟩
      · rw [same]
        cases delivering : w'.delivery with
        | none =>
          rw [Watch.ahead, delivering] at hq
          cases hq
        | some d' =>
          cases step_reaches hs delivering with
          | resolved targets _ begun =>
            rw [ahead_waiting delivering begun] at hq
            exact (resolved_current w.state.store.db.valid targets hq).1
          | @next d held rest _ _ begun =>
            rw [ahead_waiting delivering begun, rest] at hq
            exact left d held q hq
          | @onward d held _ rest _ _ begun =>
            rw [ahead_begun delivering (begun ▸ inv.begun_own hs held), rest] at hq
            exact left d held q hq
      · cases step_reaches hs delivering with
        | resolved _ _ begun | next _ _ _ _ begun =>
          rw [begun] at begun'
          cases begun'
        | @onward d held endpoint _ _ _ begun =>
          rw [endpoint]
          exact h.begun d t' held (begun ▸ begun')

theorem Fresh.steady {a : WatchAction} (h : w.Fresh) (inv : w.Inv) : w.Steady a := by
  intro _ d t _ here begun
  rw [h.begun d t here begun, (inv.copies d here d.endpoint List.mem_cons_self).1]

theorem Fresh.resolving (start : w.state.call w.task = some .resolving) : w.Fresh := by
  constructor
  · rw [Watch.ahead, delivery_resolving start]
    exact fun q hq => absurd hq List.not_mem_nil
  · intro d _ here
    rw [delivery_resolving start] at here
    cases here

/-- Requests that leave the endpoints ahead alone do no harm. -/
theorem undisturbed_posts_current {as : List WatchAction} (start : w.state.call w.task = some .resolving)
    (run : Lts.Run (Watch.step cfg) Undisturbed w as w') : Lts.Run (Watch.step cfg) PostsCurrent w as w' :=
  run.mono_with (I := fun w => w.Inv ∧ w.Fresh) (fun _ _ _ h calm hs => ⟨h.1.step hs, h.2.step h.1 calm hs⟩)
    (fun _ _ _ h _ hs => (h.1.postsCurrent_iff hs).2 (h.2.steady h.1))
    ⟨Inv.resolving start, Fresh.resolving start⟩

/-- **When POSTs honour the endpoint as it is.** From a call's first step on, and whatever happens in between:
its POSTs use the url and the secret committed when their `_deliver_to_endpoint` began, and none goes to an
endpoint disabled or deleted by then, exactly when the configuration of each endpoint posted to was the same at
that moment as when the targets were read. -/
theorem posts_current_iff {as : List WatchAction} (start : w.state.call w.task = some .resolving) :
    Lts.Run (Watch.step cfg) PostsCurrent w as w' ↔ Lts.Run (Watch.step cfg) Steady w as w' :=
  Lts.Run.congr_with (fun _ _ _ h hs => h.step hs) (fun _ _ _ h hs => h.postsCurrent_iff hs)
    (Inv.resolving start)

end

end Watch

/-! ## A secret is rotated during a fan-out -/

/-- A worker has fetched the event, to which a second endpoint is subscribed as well. -/
def sampleFanOut : List Action :=
  samplePublished ++ [.createEndpoint (.ofNat 5) sampleEndpoint] ++
    handOut 0 [sampleRecord 0 (.fanOut (.ofNat 2))]

/-- The task 0, of which nothing has been seen. -/
def State.watch (s : State) : Watch where
  state := s
  task := 0
  read := s.store.db.toTables
  begun := none

def firstDelivery : List WatchAction :=
  [.system (.task 0 .resolve), .begin, .system (.task 0 .select),
    .system (.task 0 (.post (.response 200 []))), .system (.task 0 .record)]

/-- The secret of an endpoint is rotated. -/
def rotate (id : Nat) : WatchAction :=
  .system (.updateEndpoint (.ofNat id) { secret := some (some "rotated") })

def accepted : WatchAction := .system (.task 0 (.post (.response 200 [])))

/-- The call of the task has not read its targets. -/
def State.resolving (s : State) (i : Nat) : Bool := s.call i matches some .resolving

theorem State.resolving_iff {s : State} {i : Nat} : s.resolving i = true ↔ s.call i = some .resolving := by
  unfold State.resolving
  split <;> simp_all

/-- The secret of the second endpoint is rotated while the first is delivered to. -/
theorem rotated_secret_ignored :
    ¬ ∀ (cfg : Settings) (w w' : Watch) (as : List WatchAction), Reachable cfg w.state →
      w.state.call w.task = some .resolving → Lts.Run (Watch.step cfg) Lts.Any w as w' →
      Lts.Run (Watch.step cfg) Watch.PostsCurrent w as w' := by
  intro claim
  obtain ⟨s, reach, h⟩ := Lts.Run.of_check_any (C := fun _ _ => true) (s := initial)
    (p := fun s => s.resolving 0 &&
      (Lts.check (Watch.step {}) (fun _ _ => true) s.watch
        (firstDelivery ++ [rotate 5, .begin, .system (.task 0 .select)])).any fun w =>
        (w.step {} accepted).isSome && (w.posted accepted).any fun p =>
          w.begun.all fun t => (t.getEndpoint p.endpointId).all fun q => q.secret ≠ p.secret)
    (show (Lts.check (State.step {}) _ _ sampleFanOut).any _ = true by decide +kernel)
  rw [Bool.and_eq_true] at h
  obtain ⟨w, run, stale⟩ := Lts.Run.of_check_any h.2
  simp only [Bool.and_eq_true, Option.isSome_iff_exists, Option.any_eq_true] at stale
  obtain ⟨⟨w', stepped⟩, p, posted, old⟩ := stale
  have current := (claim {} s.watch w' _ ⟨_, reach.any⟩ (State.resolving_iff.1 h.1)
    (run.any.snoc trivial stepped)).admits_last run
  obtain ⟨t, begun, q, found, -, -, secret⟩ := current p posted
  rw [begun, Option.all_some, found, Option.all_some, decide_eq_true_eq] at old
  exact old secret.symm

/-- The second endpoint's secret is rotated before the call reads its targets, and the endpoint is deleted once its
delivery has begun. -/
def rotatedBefore : List WatchAction :=
  rotate 5 :: (firstDelivery ++
    [.begin, .system (.deleteEndpoint (.ofNat 5)), .system (.task 0 .select), accepted])

/-- The delivery under way has begun with the configuration that was read. -/
def Watch.steady (w : Watch) : Bool :=
  w.delivery.all fun d => w.begun.all fun t =>
    (t.getEndpoint d.endpoint.id).map (·.configuration) = (w.read.getEndpoint d.endpoint.id).map (·.configuration)

theorem Watch.steady_of {w : Watch} {a : WatchAction} (h : w.steady = true) : w.Steady a := by
  intro _ d t _ here begun
  rw [Watch.steady, here, Option.all_some, begun, Option.all_some] at h
  exact of_decide_eq_true h

theorem rotated_secret_used :
    ∃ w w' : Watch, Lts.Run (Watch.step {}) Watch.PostsCurrent w rotatedBefore w' ∧
      (Lts.outputs (Watch.step {}) Watch.posted w rotatedBefore).map (·.secret) = ["secret", "rotated"] := by
  obtain ⟨s, -, h⟩ := Lts.Run.of_check_any (C := fun _ _ => true) (s := initial)
    (p := fun s => s.resolving 0 &&
      (Lts.check (Watch.step {}) (fun w _ => w.steady) s.watch rotatedBefore).isSome &&
      (Lts.outputs (Watch.step {}) Watch.posted s.watch rotatedBefore).map (·.secret) = ["secret", "rotated"])
    (show (Lts.check (State.step {}) _ _ sampleFanOut).any _ = true by decide +kernel)
  simp only [Bool.and_eq_true, decide_eq_true_eq, Option.isSome_iff_exists] at h
  obtain ⟨⟨start, w', checked⟩, secrets⟩ := h
  have run := (Lts.Run.of_check checked).mono (D := Watch.Steady) fun _ _ => Watch.steady_of
  exact ⟨s.watch, w', (Watch.posts_current_iff (State.resolving_iff.1 start)).2 run, secrets⟩

end HookRelay
