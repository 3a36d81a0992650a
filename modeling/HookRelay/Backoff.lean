import Mathlib.Algebra.BigOperators.Intervals
import Mathlib.Algebra.Order.Ring.Rat
import Mathlib.Tactic.NormNum
import Mathlib.Tactic.Ring
import HookRelay.Evolution
import HookRelay.RetryChain
import HookRelay.RetryStore

/-!
# The delays of a retry chain

`backoff_seconds`, and the attempt numbers it is called with. The power of two is converted to a float before the
cap is applied to it, so a number from 1024 on has no delay, however large the configured number of attempts is.
-/

namespace HookRelay

/-! ## The delay -/

section

variable {K : Type*} [Field K] [LinearOrder K]

/-- `_BASE`. -/
def backoffBase : K := 1

/-- `_CAP`. -/
def backoffCap : K := 4 * 3600

/-- `backoff_seconds`, with what `random.uniform(0, _BASE)` returns. -/
def backoffSeconds (attempt : Int) (uniform : K) : Option K :=
  if exponentialFits attempt then some (min backoffCap (backoffBase * 2 ^ attempt) + uniform) else none

variable (K) in
/-- The least delay of a retry. -/
def leastDelay (n : Nat) : K := min backoffCap (2 ^ n)

variable (K) in
/-- The retry has a delay, which is at most a second more than the least one. -/
def Delayed (n : Nat) : Prop :=
  ∀ uniform : K, 0 ≤ uniform → uniform ≤ backoffBase →
    ∃ delay, backoffSeconds n uniform = some delay ∧ leastDelay K n ≤ delay ∧ delay ≤ leastDelay K n + 1

theorem exponentialFits_natCast {n : Nat} : exponentialFits n = true ↔ n < 1024 := by
  rw [exponentialFits, if_pos (Int.natCast_nonneg n), Int.toNat_natCast, Binary64.ofInt_two_pow]

theorem backoffSeconds_eq {n : Nat} (small : n < 1024) (uniform : K) :
    backoffSeconds n uniform = some (leastDelay K n + uniform) := by
  rw [backoffSeconds, if_pos (exponentialFits_natCast.2 small), backoffBase, one_mul, zpow_natCast, leastDelay]

theorem backoffSeconds_raises {n : Nat} (large : 1024 ≤ n) (uniform : K) : backoffSeconds n uniform = none :=
  if_neg (mt exponentialFits_natCast.1 (Nat.not_lt.2 large))

variable [IsStrictOrderedRing K]

variable (K) in
theorem delayed_iff {n : Nat} : Delayed K n ↔ n < 1024 := by
  constructor
  · intro delayed
    obtain ⟨delay, returned, -⟩ := delayed 0 le_rfl zero_le_one
    by_contra large
    rw [backoffSeconds_raises (Nat.not_lt.1 large)] at returned
    cases returned
  · intro small uniform nonneg le
    refine ⟨_, backoffSeconds_eq small uniform, ?_, ?_⟩
    · exact le_add_of_nonneg_right nonneg
    · exact add_le_add_right le _

variable (K) in
theorem leastDelay_mono : Monotone (leastDelay K) := fun _ _ le =>
  min_le_min_left _ (pow_le_pow_right₀ one_le_two le)

end

/-! ## How long a chain waits -/

section

variable (K : Type*) [Field K] [LinearOrder K]

/-- The least time that the retries of a number of attempts wait. -/
def leastSpan (attempts : Nat) : K := ∑ n ∈ Finset.Ico 1 attempts, leastDelay K n

variable {n : Nat}

theorem leastSpan_succ (pos : 1 ≤ n) : leastSpan K (n + 1) = leastSpan K n + leastDelay K n :=
  Finset.sum_Ico_succ_top pos _

variable [IsStrictOrderedRing K]

/-- The cap is reached at attempt 14. -/
theorem leastDelay_eq_pow (h : n ≤ 13) : leastDelay K n = 2 ^ n := by
  have below : (2 : K) ^ 13 ≤ backoffCap := by norm_num [backoffCap]
  exact min_eq_right ((pow_le_pow_right₀ one_le_two h).trans below)

theorem leastDelay_eq_cap (h : 14 ≤ n) : leastDelay K n = backoffCap := by
  have reached : (backoffCap : K) ≤ 2 ^ 14 := by norm_num [backoffCap]
  exact min_eq_left (reached.trans (pow_le_pow_right₀ one_le_two h))

theorem leastSpan_eq_pow (h : n ≤ 13) : leastSpan K (n + 1) = 2 ^ (n + 1) - 2 := by
  induction n with
  | zero => simp [leastSpan]
  | succ n ih =>
    rw [leastSpan_succ K (Nat.succ_pos n), ih (Nat.le_of_succ_le h), leastDelay_eq_pow K h]
    ring

/-- From the cap on the span grows by it: the default of 15 attempts spans eight and a half hours. -/
theorem leastSpan_eq_cap (k : Nat) : leastSpan K (14 + k) = 2 ^ 14 - 2 + k * backoffCap := by
  induction k with
  | zero => rw [Nat.add_zero, leastSpan_eq_pow K le_rfl, Nat.cast_zero, zero_mul, add_zero]
  | succ k ih =>
    rw [← Nat.add_assoc, leastSpan_succ K (by omega), ih, leastDelay_eq_cap K (Nat.le_add_right 14 k), Nat.cast_succ]
    ring

end

/-! ## The numbers of a chain -/

/-- The retries scheduled so far are within the budget. -/
def WithinBudget (cfg : Settings) (st : Store) : Prop :=
  ∀ k, .scheduled k ∈ st.history → 1 ≤ k.attemptNumber ∧ (k.attemptNumber : Int) < cfg.maxRetryAttempts

/-- No request is open, nothing is scheduled and nothing has happened. -/
structure Idle (st : Store) : Prop where
  requests : st.requests = []
  zset : st.redis.zset = ∅
  data : st.redis.data = ∅
  history : st.history = []

/-- In the chain of retries that the fan-out of an event starts, `_deliver_to_endpoint` passes `n` to `schedule`.
The numbers before it have had their delays, or the chain would have ended there. -/
def Schedules (cfg : Settings) (n : Nat) : Prop :=
  (∀ m < n, exponentialFits m = true) ∧
    ∃ (replies : Nat → StoredReply) (dlqId : UUID) (clock : Clock) (st : Store) (eventId endpointId : UUID) (t : Nat)
      (p : Pipeline), Idle st ∧ rounds cfg replies dlqId clock st eventId t = some p ∧
        .scheduled ⟨eventId, endpointId, n⟩ ∈ p.store.history

section

variable {cfg : Settings} {st st' : Store} {r : Record Message} {c c' : Call} {b : TaskAction}

theorem WithinBudget.log (h : WithinBudget cfg st) {x : Happening} (other : ∀ k, x ≠ .scheduled k) :
    WithinBudget cfg (st.log x) := fun k hk => by
  obtain rfl | old := List.mem_cons.1 hk
  · exact absurd rfl (other k)
  · exact h k old

/-- A retry is scheduled under the number after that of a delivery with attempts left. -/
theorem Moves.withinBudget (h : Moves cfg st r c b st' c') (within : WithinBudget cfg st) :
    WithinBudget cfg st' := by
  cases h with
  | post | record => exact within.log (by simp)
  | @schedule d result _ _ left =>
    intro k hk
    obtain same | old := List.mem_cons.1 hk
    · obtain rfl := Happening.scheduled.inj same
      rw [Delivery.exhausted, Bool.or_eq_false_iff, decide_eq_false_iff_not, not_le] at left
      exact ⟨Nat.succ_pos _, left.2⟩
    · exact within k old
  | _ => exact within

/-- In every interleaving, whatever is scheduled is within the budget. -/
theorem scheduled_withinBudget {s : State} (reach : Reachable cfg s) : WithinBudget cfg s.store := by
  refine reach.invariant (I := fun s => WithinBudget cfg s.store) (fun s a s' within _ hs => ?_)
    (fun _ none => by cases none)
  cases step_transition hs with
  | requestPublish | relayPublish | schedulerPublish | duplicate => exact within.log (by simp)
  | task _ moved => exact moved.withinBudget within
  | _ => exact within

/-- With a budget up to 1024, every retry scheduled in any interleaving has its delay. -/
theorem scheduled_delayed (K : Type*) [Field K] [LinearOrder K] [IsStrictOrderedRing K]
    (small : cfg.maxRetryAttempts ≤ 1024) {s : State} (reach : Reachable cfg s) {k : Member}
    (scheduled : .scheduled k ∈ s.store.history) : Delayed K k.attemptNumber := by
  have within := (scheduled_withinBudget reach k scheduled).2
  rw [delayed_iff]
  omega

theorem Comes.withinBudget {s s' : Store × Call} (h : Comes cfg r s s')
    (start : WithinBudget cfg s.1 ∧ s.1.requests = []) : WithinBudget cfg s'.1 ∧ s'.1.requests = [] := by
  obtain ⟨as, run⟩ := h
  refine run.invariant (I := fun s => WithinBudget cfg s.1 ∧ s.1.requests = []) (fun s a s' h _ hs => ?_) start
  have moved := Call.step_moves hs
  exact ⟨moved.withinBudget h.1, moved.requests_eq.trans h.2⟩

theorem consume_withinBudget {env : Store → UUID → Reaction} {records : List (Record Message)}
    (run : consume cfg env st records = some st') (start : WithinBudget cfg st ∧ st.requests = []) :
    WithinBudget cfg st' ∧ st'.requests = [] := by
  induction records generalizing st with
  | nil =>
    obtain rfl := Option.some.inj run
    exact start
  | cons r records ih =>
    obtain ⟨st₁, first, rest⟩ := Option.bind_eq_some_iff.1 run
    exact ih rest ((processRecord_comes start.2 first).withinBudget start)

/-- A tick publishes and cancels, and schedules nothing. -/
theorem republish_store (p : Pipeline) (messages : List Message) :
    (republish p messages).store.history = p.store.history ∧
      (republish p messages).store.requests = p.store.requests := by
  induction messages generalizing p with
  | nil => exact ⟨rfl, rfl⟩
  | cons m rest ih =>
    unfold republish
    split
    · exact ih p
    · exact ih _

theorem rounds_withinBudget {replies : Nat → StoredReply} {dlqId eventId : UUID} {clock : Clock} {t : Nat}
    {p : Pipeline} (idle : Idle st) (run : rounds cfg replies dlqId clock st eventId t = some p) :
    WithinBudget cfg p.store ∧ p.store.requests = [] := by
  induction t generalizing p with
  | zero =>
    obtain rfl := Option.some.inj run
    refine ⟨fun k hk => ?_, idle.requests⟩
    rw [idle.history] at hk
    cases hk
  | succ t ih =>
    obtain ⟨p₀, before, round⟩ := Option.bind_eq_some_iff.1 run
    obtain ⟨st₁, consumed, ticked⟩ := Option.bind_eq_some_iff.1 round
    obtain rfl := Option.some.inj ticked
    obtain ⟨history, requests⟩ := republish_store { p₀ with store := st₁, pending := [] }
      (st₁.redis.pollDue (clock.tick t))
    rw [WithinBudget, history, requests]
    exact consume_withinBudget consumed (ih before)

end

/-! ## The chain goes on as long as there are delays -/

section

variable {cfg : Settings} {n : Nat}

theorem soloStore_idle : Idle soloStore := ⟨rfl, rfl, rfl, rfl⟩

/-- An endpoint that always answers 500. -/
def broken (_ : Nat) : StoredReply := ⟨.response 500 [], rfl⟩

/-- The chain of an endpoint that never recovers. -/
theorem broken_schedules (within : ((n + 1 : Nat) : Int) < cfg.maxRetryAttempts) :
    ∃ p, rounds cfg broken (.ofNat 3) promptClock soloStore (.ofNat 2) (n + 1) = some p ∧
      .scheduled ⟨.ofNat 2, .ofNat 1, n + 1⟩ ∈ p.store.history := by
  have settings : cfg.maxRetryAttempts = cfg.maxRetryAttempts.toNat := (Int.toNat_of_nonneg (by omega)).symm
  have failed : ∀ i < n, (broken i).result.final = false := fun _ _ => rfl
  obtain ⟨p, run, waiting⟩ := rounds_waiting promptClock soloStore_new settings failed (by omega)
  obtain ⟨p', round, -, scheduled⟩ := waiting.again soloStore_new failed rfl within (promptClock.due n)
  refine ⟨p', ?_, scheduled⟩
  rw [rounds]
  exact Option.bind_eq_some_iff.2 ⟨p, run, round⟩

theorem schedules_iff : Schedules cfg n ↔ 1 ≤ n ∧ (n : Int) < cfg.maxRetryAttempts ∧ n ≤ 1024 := by
  constructor
  · rintro ⟨fits, replies, dlqId, clock, st, eventId, endpointId, t, p, idle, run, scheduled⟩
    obtain ⟨pos, within⟩ := (rounds_withinBudget idle run).1 _ scheduled
    refine ⟨pos, within, ?_⟩
    by_contra large
    exact absurd (exponentialFits_natCast.1 (fits 1024 (Nat.lt_of_not_le large))) (Nat.lt_irrefl _)
  · rintro ⟨pos, within, small⟩
    obtain ⟨n, rfl⟩ := Nat.exists_eq_add_of_le' pos
    obtain ⟨p, run, scheduled⟩ := broken_schedules within
    exact ⟨fun m hm => exponentialFits_natCast.2 (by omega), broken, .ofNat 3, promptClock, soloStore, .ofNat 2,
      .ofNat 1, n + 1, p, soloStore_idle, run, scheduled⟩

/-- **When the backoff is total.** Every number that a chain of retries passes to `schedule` has a delay, which lies
between the least one and a second more, and the least delay does not fall from one number to the next: exactly for
the budgets up to 1024. -/
theorem backoff_total_iff (K : Type*) [Field K] [LinearOrder K] [IsStrictOrderedRing K] (cfg : Settings) :
    ((∀ n, Schedules cfg n → Delayed K n) ∧ Monotone (leastDelay K)) ↔ cfg.maxRetryAttempts ≤ 1024 := by
  constructor
  · rintro ⟨delayed, -⟩
    by_contra large
    have passed : Schedules cfg 1024 := schedules_iff.2 ⟨by omega, by omega, le_rfl⟩
    exact absurd ((delayed_iff K).1 (delayed 1024 passed)) (Nat.lt_irrefl _)
  · intro small
    refine ⟨fun n passed => (delayed_iff K).2 ?_, leastDelay_mono K⟩
    obtain ⟨-, within, -⟩ := schedules_iff.1 passed
    omega

/-- The default budget. -/
theorem backoff_total_default :
    (∀ n, Schedules {} n → Delayed ℚ n) ∧ Monotone (leastDelay ℚ) :=
  (backoff_total_iff ℚ {}).2 (by decide)

/-- With a budget of 1025 the last retry has no delay. -/
theorem backoff_overflows :
    ¬ ∀ cfg : Settings, (∀ n, Schedules cfg n → Delayed ℚ n) ∧ Monotone (leastDelay ℚ) := fun claim =>
  have passed : Schedules { maxRetryAttempts := 1025 } 1024 := schedules_iff.2 (by decide)
  absurd ((delayed_iff ℚ).1 ((claim _).1 1024 passed)) (Nat.lt_irrefl _)

end

end HookRelay
