import Mathlib.Tactic.Linarith
import HookRelay.AuditTrail
import HookRelay.Backoff
import HookRelay.ScheduledRetry
import HookRelay.Lib.Timed

/-!
# How long an endpoint has

A due time is computed from one worker's clock and compared with another's. The scripts of Redis are the only
place where a retry waits: whoever polls it, publishes it, publishes it again or delivers it finds its delay
over. So a POST comes after the one before it of the pair by at least the delay of its number, and no dead letter
is written for want of attempts before the delays of all of them are over, whatever the processes do in between.
-/

namespace HookRelay

/-- `hz` ticks of a timestamp are a second, and the reading of `time.time()` that a script gets is off by at most
`skew` seconds from the time the script runs. -/
structure Clocks where
  hz : ℚ
  skew : ℚ
  hz_pos : 0 < hz

/-- What `time.time()` returned for a script that runs at `time`: the bound is one for the error of the clock and the
time in between together. -/
def Clocks.Reads (k : Clocks) (time reading : ℚ) : Prop := time - k.skew ≤ reading ∧ reading ≤ time + k.skew

/-- The timestamps of the step come from the clocks: `schedule` adds `backoff_seconds` to a reading, and `poll_due`
passes one. -/
def Clocks.Kept (k : Clocks) (s : State × ℚ) (a : ℚ × Action) : Prop :=
  match a.2 with
  | .task i (.schedule retryAfter) => ∀ d, s.1.delivery i = some d →
      ∃ reading uniform delay, k.Reads a.1 reading ∧ 0 ≤ uniform ∧ uniform ≤ backoffBase ∧
        backoffSeconds ((d.attemptNumber + 1 : Nat) : Int) uniform = some delay ∧
        (retryAfter : ℚ) = k.hz * (reading + delay)
  | .scheduler _ (.poll now) => ∃ reading, k.Reads a.1 reading ∧ (now : ℚ) = k.hz * reading
  | _ => True

/-- The POST that the step makes, with its time. -/
def timedPost (s : State × ℚ) (a : ℚ × Action) : Option (ℚ × Post) :=
  match a.2 with
  | .task i (.post result) => (s.1.delivery i).map fun d => (a.1, d.post result)
  | _ => none

/-- The POSTs of a run, in order. -/
abbrev timedPosts (cfg : Settings) : State × ℚ → List (ℚ × Action) → List (ℚ × Post) :=
  Lts.outputs (Lts.timed (State.step cfg)) timedPost

/-- Unless it is the first of its pair, the attempt follows a POST under the number before it that failed and was
to be retried, and its delay since then is over at `time`. -/
def Rested (posts : List (ℚ × Post)) (k : Member) (time : ℚ) : Prop :=
  ∀ n, k.attemptNumber = n + 1 → ∃ sent post, (sent, post) ∈ posts ∧ post.eventId = k.eventId ∧
    post.endpointId = k.endpointId ∧ post.attemptNumber = n ∧ post.result.succeeded = false ∧
    post.result.isPermanent = false ∧ sent + leastDelay ℚ (n + 1) ≤ time

theorem Rested.mono {posts posts' : List (ℚ × Post)} {k : Member} {time time' : ℚ} (h : Rested posts k time)
    (sub : posts ⊆ posts') (le : time ≤ time') : Rested posts' k time' := by
  intro n hn
  obtain ⟨sent, post, mem, he, hp, number, failed, transient, waited⟩ := h n hn
  exact ⟨sent, post, sub mem, he, hp, number, failed, transient, waited.trans le⟩

/-- A record has the message, or a scheduler has polled it. -/
def State.Due (s : State) (m : Message) : Prop :=
  (∃ r ∈ s.group.log, r.value = m) ∨ ∃ sch ∈ s.schedulers, m ∈ sch.messages

/-- Every retry in Redis has a due time that waits for its delay, and the delay of every retry that has left it is
over. -/
structure Window (cfg : Settings) (k : Clocks) (s : State × ℚ) (posts : List (ℚ × Post)) : Prop where
  reach : Reachable cfg s.1
  logged : ∀ r post, .posted r post ∈ s.1.store.history → ∃ sent ≤ s.2, (sent, post) ∈ posts
  stored : ∀ m due, s.1.store.redis.zset.lookup m = some due → Rested posts m (due / k.hz + k.skew)
  due : ∀ m : Member, s.1.Due m.message → Rested posts m (s.2 + 2 * k.skew)

section Step

variable {cfg : Settings} {s s' : State} {a : Action}

/-! ## A retry leaves Redis when it is due -/

theorem RedisRetryScheduler.mem_pollDue_due {q : RedisRetryScheduler} {now : Nat} {m : Message}
    (h : m ∈ q.pollDue now) : ∃ k due, q.data.lookup k = some m ∧ q.zset.lookup k = some due ∧ due ≤ now := by
  rw [pollDue, pollScript, pollScript_fold (dueMembers_held q now pollBatch), List.nil_append,
    List.mem_filterMap] at h
  obtain ⟨k, hk, hm⟩ := h
  obtain ⟨due, hd, le⟩ := mem_dueMembers hk
  exact ⟨k, due, hm, hd, le⟩

/-- An entry of the ZSET is an old one, or the call of the step has just added it. -/
theorem Transition.zset_cases (h : Transition cfg s a s') {k : Member} {due : Nat}
    (hk : s'.store.redis.zset.lookup k = some due) : s.store.redis.zset.lookup k = some due ∨
      ∃ i d result, a = .task i (.schedule due) ∧ s.delivery i = some d ∧ d.stage = .failed result ∧
        d.exhausted cfg result = false ∧ d.nextMember = k := by
  have erased : ∀ {q : RedisRetryScheduler} {k' : Member}, (q.cancel k').zset.lookup k = some due →
      q.zset.lookup k = some due := by
    intro q k' h
    by_cases same : k = k'
    · subst same
      rw [RedisRetryScheduler.cancel, AList.lookup_erase] at h
      cases h
    · rwa [RedisRetryScheduler.cancel, AList.lookup_erase_ne same] at h
  cases h with
  | schedulerCancel => exact .inl (erased hk)
  | @task i _ t _ _ found moved =>
    obtain ⟨worker, record, c⟩ := t
    cases moved with
    | cancel => exact .inl (erased hk)
    | @schedule d result retryAfter stage left =>
      by_cases same : k = d.nextMember
      · subst same
        have hk : (AList.insert d.nextMember retryAfter s.store.redis.zset).lookup d.nextMember = some due := hk
        rw [AList.lookup_insert, Option.some.injEq] at hk
        subst hk
        exact .inr ⟨i, d, result, rfl, State.delivery_eq_some.2 ⟨_, found, rfl⟩, stage, left, rfl⟩
      · have hk : (AList.insert d.nextMember retryAfter s.store.redis.zset).lookup k = some due := hk
        rw [AList.lookup_insert_ne same] at hk
        exact .inl hk
    | _ => exact .inl hk
  | _ => exact .inl hk

/-- A retry that has left Redis had left it before, or a scheduler has just polled it. -/
theorem Transition.due_cases (h : Transition cfg s a s') {m : Message} (hm : s'.Due m) :
    s.Due m ∨ (∃ e, m = .fanOut e) ∨ ∃ w now, a = .scheduler w (.poll now) ∧ m ∈ s.store.redis.pollDue now := by
  rcases hm with ⟨r, hr, rfl⟩ | ⟨sch, hsch, hm⟩
  · rcases h.log_cases hr with hr | ⟨e, -, he⟩ | ⟨w, rest, found, -⟩ | ⟨r', hr', he⟩
    · exact .inl (.inl ⟨r, hr, rfl⟩)
    · exact .inr (.inl ⟨e, he⟩)
    · exact .inl (.inr ⟨_, List.mem_of_getElem? found, List.mem_cons_self⟩)
    · exact .inl (.inl ⟨r', hr', he.symm⟩)
  · have old : sch ∈ s.schedulers → s.Due m := fun h => .inr ⟨sch, h, hm⟩
    have set : ∀ {w : Nat} {new : Scheduler}, (m ∈ new.messages → s.Due m) →
        sch ∈ s.schedulers.set w new → s.Due m := fun new hs =>
      (List.mem_or_eq_of_mem_set hs).elim old fun he => new (he ▸ hm)
    cases h with
    | @poll w now =>
      rcases List.mem_or_eq_of_mem_set hsch with hsch | rfl
      · exact .inl (old hsch)
      · rw [Scheduler.next_messages] at hm
        exact .inr (.inr ⟨w, now, rfl, hm⟩)
    | @schedulerPublish _ _ _ m₀ rest _ found =>
      refine .inl (set (fun hm => ?_) hsch)
      exact .inr ⟨.due (m₀ :: rest), List.mem_of_getElem? found, hm⟩
    | schedulerCancel found | schedulerSkip found =>
      refine .inl (set (fun hm => ?_) hsch)
      rw [Scheduler.next_messages] at hm
      exact .inr ⟨_, List.mem_of_getElem? found, List.mem_cons_of_mem _ hm⟩
    | spawn =>
      rcases List.mem_append.1 hsch with hs | hs
      · exact .inl (old hs)
      · rw [List.mem_singleton.1 hs] at hm
        cases hm
    | crash => exact .inl (set (fun hm => by cases hm) hsch)
    | _ => exact .inl (old hsch)

/-! ## The window -/

namespace Window

variable {k : Clocks} {t t' : State × ℚ} {b : ℚ × Action} {posts : List (ℚ × Post)}

theorem initial (start : ℚ) : Window cfg k (HookRelay.initial, start) [] where
  reach := .refl _
  logged r post h := by cases h
  stored m due h := by cases h
  due m h := by rcases h with ⟨r, hr, -⟩ | ⟨sch, hsch, -⟩ <;> contradiction

variable (h : Window cfg k t posts) (hs : Lts.timed (State.step cfg) t b = some t')
include h hs

theorem logged_step : ∀ r post, .posted r post ∈ t'.1.store.history →
    ∃ sent ≤ t'.2, (sent, post) ∈ posts ++ (timedPost t b).toList := by
  intro r post hx
  obtain ⟨later, hs, now⟩ := Lts.timed_eq_some.1 hs
  rcases (step_transition hs).made_cases hx with old | ⟨i, d, result, ha, hd, rfl⟩
  · obtain ⟨sent, le, mem⟩ := h.logged r post old
    exact ⟨sent, le.trans (now ▸ later), List.mem_append_left _ mem⟩
  · have made : timedPost t b = some (b.1, d.post result) := by simp [timedPost, ha, hd]
    exact ⟨b.1, now.ge, List.mem_append_right _ (by simp [made])⟩

/-- A retry is scheduled after the POST that failed, with a due time that waits for its delay. -/
theorem stored_step (kept : k.Kept t b) : ∀ m due, t'.1.store.redis.zset.lookup m = some due →
    Rested (posts ++ (timedPost t b).toList) m (due / k.hz + k.skew) := by
  intro m due hm
  obtain ⟨later, hs, now⟩ := Lts.timed_eq_some.1 hs
  rcases (step_transition hs).zset_cases hm with old | ⟨i, d, result, ha, hd, stage, left, rfl⟩
  · exact (h.stored m due old).mono (List.subset_append_left _ _) le_rfl
  · intro n hn
    have hn : d.attemptNumber = n := Nat.succ.inj hn
    obtain ⟨task, found, data⟩ := State.delivery_eq_some.1 hd
    have ht := List.mem_of_getElem? found
    have posted : .posted task.record (d.post result) ∈ t.1.store.history :=
      posted_of_result h.reach ht data (by simp [stage, Stage.result])
    obtain ⟨sent, le, mem⟩ := h.logged _ _ posted
    have transient : result.isPermanent = false := by
      rw [Delivery.exhausted, Bool.or_eq_false_iff] at left
      exact left.1
    refine ⟨sent, d.post result, List.mem_append_left _ mem, rfl, rfl, hn,
      unsuccessful h.reach task ht d result data stage, transient, ?_⟩
    -- The due time is the reading plus at least the least delay.
    rw [Clocks.Kept, ha] at kept
    obtain ⟨reading, uniform, delay, read, nonneg, -, backoff, ticks⟩ := kept d hd
    have seconds : (due : ℚ) / k.hz = reading + delay := by
      rw [ticks, mul_div_cancel_left₀ _ k.hz_pos.ne']
    have small : d.attemptNumber + 1 < 1024 := by
      by_contra large
      rw [backoffSeconds_raises (Nat.not_lt.1 large)] at backoff
      cases backoff
    rw [backoffSeconds_eq small, Option.some.injEq, hn] at backoff
    have early := read.1
    linarith

/-- A retry leaves Redis at a time whose reading is not before its due time. -/
theorem due_step (kept : k.Kept t b) : ∀ m : Member, t'.1.Due m.message →
    Rested (posts ++ (timedPost t b).toList) m (t'.2 + 2 * k.skew) := by
  intro m hm
  obtain ⟨later, hs, now⟩ := Lts.timed_eq_some.1 hs
  rcases (step_transition hs).due_cases hm with old | ⟨e, same⟩ | ⟨w, reading, ha, polled⟩
  · refine (h.due m old).mono (List.subset_append_left _ _) ?_
    linarith
  · cases same
  · obtain ⟨m', due, lookup, stored, le⟩ := RedisRetryScheduler.mem_pollDue_due polled
    have same : m' = m := by
      have same := stored_message h.reach m' _ lookup
      cases m
      cases m'
      cases same
      rfl
    subst same
    refine (h.stored m' due stored).mono (List.subset_append_left _ _) ?_
    rw [Clocks.Kept, ha] at kept
    obtain ⟨read, near, ticks⟩ := kept
    have elapsed : (due : ℚ) / k.hz ≤ read := by
      rw [div_le_iff₀ k.hz_pos, mul_comm, ← ticks]
      exact Nat.cast_le.2 le
    have late := near.2
    linarith

theorem step (kept : k.Kept t b) : Window cfg k t' (posts ++ (timedPost t b).toList) where
  reach := h.reach.next trivial (Lts.timed_step hs)
  logged := h.logged_step hs
  stored := h.stored_step hs kept
  due := h.due_step hs kept

/-- A POST is rested: the record it is made for has left Redis when it was due. -/
theorem post_rested {sent : ℚ} {post : Post} (made : timedPost t b = some (sent, post)) :
    Rested posts ⟨post.eventId, post.endpointId, post.attemptNumber⟩ (sent + 2 * k.skew) := by
  obtain ⟨later, -, -⟩ := Lts.timed_eq_some.1 hs
  unfold timedPost at made
  split at made
  · rename_i i result _
    obtain ⟨d, hd, same⟩ := Option.map_eq_some_iff.1 made
    obtain ⟨rfl, rfl⟩ := Prod.mk.inj same
    obtain ⟨task, found, data⟩ := State.delivery_eq_some.1 hd
    have ht := List.mem_of_getElem? found
    have source := (provenance h.reach).calls task ht d data
    have logged := (group_inv h.reach).tasks task ht
    intro n hn
    have number : task.record.value.attempt = n + 1 := by
      rw [← source.attempt]
      exact hn
    -- A record with a number is the one of a scheduled retry, and its member is the delivery's.
    rcases carried_forms h.reach _ (.inl ⟨_, logged, rfl⟩) with ⟨e, plain⟩ | ⟨m, retry, -⟩
    · rw [plain] at number
      cases number
    · have same : m = ⟨d.event.id, d.endpoint.id, d.attemptNumber⟩ := by
        rw [source.event, source.target _ List.mem_cons_self m.endpointId (by rw [retry]; rfl), source.attempt, retry]
        rfl
      subst same
      refine (h.due _ (.inl ⟨_, logged, retry⟩)).mono (List.Subset.refl _) ?_ n hn
      linarith
  · cases made

end Window

end Step

/-! ## A short window -/

/-- Two attempts, on clocks that are never off. -/
def shortClocks : Clocks := ⟨1, 0, one_pos⟩

/-- The step reads its time off the clock, and no delay is longer than it must be. -/
def punctual (s : State × ℚ) (a : ℚ × Action) : Bool :=
  match a.2 with
  | .task i (.schedule retryAfter) => (s.1.delivery i).all fun d =>
      d.attemptNumber + 1 < 1024 && (retryAfter : ℚ) = a.1 + leastDelay ℚ (d.attemptNumber + 1)
  | .scheduler _ (.poll now) => (now : ℚ) = a.1
  | _ => true

theorem punctual_kept {s : State × ℚ} {a : ℚ × Action} (h : punctual s a = true) : shortClocks.Kept s a := by
  have reads : shortClocks.Reads a.1 a.1 := by simp [Clocks.Reads, shortClocks]
  unfold punctual at h
  unfold Clocks.Kept
  split at h
  · intro d hd
    rw [hd, Option.all_some, Bool.and_eq_true, decide_eq_true_eq, decide_eq_true_eq] at h
    refine ⟨a.1, 0, _, reads, le_rfl, zero_le_one, backoffSeconds_eq h.1 0, ?_⟩
    rw [h.2, add_zero]
    exact (one_mul _).symm
  · exact ⟨a.1, reads, by rw [of_decide_eq_true h]; exact (one_mul _).symm⟩
  · trivial

def stamped (time : ℚ) (as : List Action) : List (ℚ × Action) := as.map (time, ·)

/-- The event is delivered at 10 and again at 12, and both POSTs fail. -/
def sampleTimed : List (ℚ × Action) :=
  stamped 10 (samplePublished ++ handOut 0 [sampleRecord 0 (.fanOut (.ofNat 2))] ++ [.task 0 .resolve] ++
    attempt 0 500 ++ [.task 0 (.schedule 12), .finish 0 .returned]) ++
  stamped 12 ([.scheduler 0 (.poll 12), .scheduler 0 (.publish 0 1), .scheduler 0 .cancel] ++
    handOut 0 [sampleRecord 1 (.retry (.ofNat 2) (.ofNat 1) 1)] ++ [.task 0 .resolve] ++ attempt 0 500 ++
    [.task 0 (.insertDlq (.ofNat 4))])

/-! ## The delays between POSTs -/

section

variable {cfg : Settings} {k : Clocks} {as : List (ℚ × Action)} {start : ℚ} {t : State × ℚ}

theorem window (run : Lts.Run (Lts.timed (State.step cfg)) k.Kept (initial, start) as t) :
    Window cfg k t (timedPosts cfg (initial, start) as) := by
  have h := run.invariant_outputs (I := Window cfg k)
    (fun _ _ _ _ _ h kept hs => h.step hs kept) (.refl _) (.initial start)
  rwa [List.nil_append] at h

theorem posts_rested (run : Lts.Run (Lts.timed (State.step cfg)) k.Kept (initial, start) as t)
    {before after : List (ℚ × Post)} {sent : ℚ} {post : Post}
    (made : timedPosts cfg (initial, start) as = before ++ (sent, post) :: after) :
    Rested before ⟨post.eventId, post.endpointId, post.attemptNumber⟩ (sent + 2 * k.skew) :=
  run.each_output (I := Window cfg k)
    (P := fun posts x => Rested posts ⟨x.2.eventId, x.2.endpointId, x.2.attemptNumber⟩ (x.1 + 2 * k.skew))
    (fun _ _ _ _ _ h kept hs => h.step hs kept) (fun _ _ _ _ _ _ h _ hs made => h.post_rested hs made)
    (.refl _) (.initial start) made

/-- **A retry waits for its delay.** A POST other than the first of its pair comes after a failed one under the
number before it, by at least the delay of its number. -/
theorem retry_waits (run : Lts.Run (Lts.timed (State.step cfg)) k.Kept (initial, start) as t)
    {before after : List (ℚ × Post)} {sent : ℚ} {post : Post} {n : Nat}
    (made : timedPosts cfg (initial, start) as = before ++ (sent, post) :: after)
    (number : post.attemptNumber = n + 1) :
    ∃ sent' post', (sent', post') ∈ before ∧ post'.eventId = post.eventId ∧ post'.endpointId = post.endpointId ∧
      post'.attemptNumber = n ∧ post'.result.succeeded = false ∧ post'.result.isPermanent = false ∧
      sent' + leastDelay ℚ (n + 1) ≤ sent + 2 * k.skew := by
  have rested := posts_rested run made
  exact rested n number

/-- The second POST waits for two seconds. -/
theorem retry_waits_two_seconds : ∃ before sent post,
    timedPosts { maxRetryAttempts := 2 } (initial, 0) sampleTimed = before ++ [(sent, post)] ∧
      post.attemptNumber = 0 + 1 ∧
      ∃ sent' post', (sent', post') ∈ before ∧ post'.eventId = post.eventId ∧ post'.endpointId = post.endpointId ∧
        post'.attemptNumber = 0 ∧ post'.result.succeeded = false ∧ post'.result.isPermanent = false ∧
        sent' + leastDelay ℚ (0 + 1) ≤ sent + 2 * shortClocks.skew := by
  obtain ⟨t, run, -⟩ := Lts.Run.of_check_any (C := punctual) (s := (initial, 0)) (p := fun _ => true)
    (show (Lts.check (Lts.timed (State.step { maxRetryAttempts := 2 })) _ _ sampleTimed).any _ = true by
      decide +kernel)
  obtain ⟨⟨sent, post⟩, last, number⟩ := (Option.any_eq_true _ _).1
    (show (timedPosts { maxRetryAttempts := 2 } (initial, 0) sampleTimed).getLast?.any
      (fun x => decide (x.2.attemptNumber = 0 + 1)) = true by decide +kernel)
  obtain ⟨before, made⟩ := List.getLast?_eq_some_iff.1 last
  have number := of_decide_eq_true number
  exact ⟨before, sent, post, made, number, retry_waits (run.mono fun _ _ h => punctual_kept h) made number⟩

/-- Every POST of a pair comes after its first one by the delays of all numbers in between. -/
theorem span_waits (run : Lts.Run (Lts.timed (State.step cfg)) k.Kept (initial, start) as t) {n : Nat} :
    ∀ sent post, (sent, post) ∈ timedPosts cfg (initial, start) as → post.attemptNumber = n →
      ∃ first opening, (first, opening) ∈ timedPosts cfg (initial, start) as ∧ opening.eventId = post.eventId ∧
        opening.endpointId = post.endpointId ∧ opening.attemptNumber = 0 ∧
        first + leastSpan ℚ (n + 1) ≤ sent + n * (2 * k.skew) := by
  induction n with
  | zero =>
    intro sent post made number
    exact ⟨sent, post, made, rfl, rfl, number, by simp [leastSpan]⟩
  | succ n ih =>
    intro sent post made number
    obtain ⟨before, after, split⟩ := List.append_of_mem made
    obtain ⟨sent', post', mem, he, hp, number', -, -, waited⟩ := posts_rested run split n number
    have made' : (sent', post') ∈ timedPosts cfg (initial, start) as := split ▸ List.mem_append_left _ mem
    obtain ⟨first, opening, opened, he', hp', zero, span⟩ := ih sent' post' made' number'
    refine ⟨first, opening, opened, he'.trans he, hp'.trans hp, zero, ?_⟩
    rw [leastSpan_succ ℚ (Nat.le_add_left 1 n)]
    push_cast
    linarith

/-- **Nothing is given up before the delays are over.** At any time of any run, a dead letter stands for a POST of
its pair that failed for good, or for one that the settings allow no other attempt after; and the pair's first POST
was made before that one by the delays of all attempts, less the errors of the clocks. -/
theorem dead_letters_wait (run : Lts.Run (Lts.timed (State.step cfg)) k.Kept (initial, start) as t) :
    ∀ x ∈ t.1.store.db.dlq, ∃ sent post, (sent, post) ∈ timedPosts cfg (initial, start) as ∧ sent ≤ t.2 ∧
      post.eventId = x.eventId ∧ post.endpointId = x.endpointId ∧ x.reason = Delivery.reason cfg post.result ∧
      (post.result.isPermanent = true ∨ cfg.maxRetryAttempts ≤ (post.attemptNumber + 1 : Nat) ∧
        ∃ first opening, (first, opening) ∈ timedPosts cfg (initial, start) as ∧ opening.eventId = x.eventId ∧
          opening.endpointId = x.endpointId ∧ opening.attemptNumber = 0 ∧
          first + leastSpan ℚ (post.attemptNumber + 1) ≤ sent + post.attemptNumber * (2 * k.skew)) := by
  intro x hx
  have h := window run
  obtain ⟨r, post, posted, he, hp, reason, ⟨-, final⟩, -⟩ := justified h.reach x hx
  obtain ⟨sent, le, made⟩ := h.logged r post posted
  refine ⟨sent, post, made, le, he, hp, reason, final.imp_right fun last => ⟨last, ?_⟩⟩
  obtain ⟨first, opening, opened, he', hp', zero, span⟩ := span_waits run sent post made rfl
  exact ⟨first, opening, opened, he'.trans he, hp'.trans hp, zero, span⟩

/-- The dead letter is written when the second POST has failed. -/
theorem dead_letter_waits_two_seconds : ∃ t : State × ℚ, ∃ x ∈ t.1.store.db.dlq,
    ∃ sent post, (sent, post) ∈ timedPosts { maxRetryAttempts := 2 } (initial, 0) sampleTimed ∧ sent ≤ t.2 ∧
      post.eventId = x.eventId ∧ post.endpointId = x.endpointId ∧
      x.reason = Delivery.reason { maxRetryAttempts := 2 } post.result ∧
      (post.result.isPermanent = true ∨ 2 ≤ ((post.attemptNumber + 1 : Nat) : Int) ∧
        ∃ first opening, (first, opening) ∈ timedPosts { maxRetryAttempts := 2 } (initial, 0) sampleTimed ∧
          opening.eventId = x.eventId ∧ opening.endpointId = x.endpointId ∧ opening.attemptNumber = 0 ∧
          first + leastSpan ℚ (post.attemptNumber + 1) ≤
            sent + post.attemptNumber * (2 * shortClocks.skew)) := by
  obtain ⟨t, run, h⟩ := Lts.Run.of_check_any (C := punctual) (s := (initial, 0))
    (p := fun t => !t.1.store.db.dlq.isEmpty)
    (show (Lts.check (Lts.timed (State.step { maxRetryAttempts := 2 })) _ _ sampleTimed).any _ = true by
      decide +kernel)
  obtain ⟨x, hx⟩ := List.exists_mem_of_ne_nil _ (by simpa using h)
  exact ⟨t, x, hx, dead_letters_wait (run.mono fun _ _ h => punctual_kept h) x hx⟩

/-- The default of 15 attempts gives an endpoint eight and a half hours. -/
example : leastSpan ℚ 15 = 8 * 3600 + 1982 := by
  rw [show 15 = 14 + 1 from rfl, leastSpan_eq_cap]
  norm_num [backoffCap]

end

end HookRelay
